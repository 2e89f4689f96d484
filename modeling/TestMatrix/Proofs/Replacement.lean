import TestMatrix.Proofs.Writing

/-!
# How a file is replaced

Replacing a file makes directories above it, then a temporary file beside it, fills that file and renames
it. Any of these steps may fail, and what has been carried out then is a beginning of the whole. So a
replacement that fails is one that was interrupted; which beginnings leave what is said here. On a machine
without troubles only making the temporary file and renaming it can fail.
-/

namespace TestMatrix

/-! ## The directories above a file -/

theorem Spelling.mem_ancestors {lead : Option Lead} {spelling : Spelling} : ∀ {parts : List String},
    spelling ∈ ancestors lead parts → ∃ rest, spelling = ⟨lead, rest.reverse⟩ ∧ rest <:+ parts
  | [], h => by cases h
  | part :: rest, h => by
    have habove (h : spelling ∈ ancestors lead rest) :
        ∃ rest', spelling = ⟨lead, rest'.reverse⟩ ∧ rest' <:+ part :: rest := by
      obtain ⟨rest', hspelling, hrest⟩ := mem_ancestors h
      exact ⟨rest', hspelling, hrest.trans (List.suffix_cons part rest)⟩
    rw [ancestors] at h
    split at h
    · exact habove h
    · cases List.mem_cons.mp h with
      | inl hself => exact ⟨part :: rest, hself, List.suffix_refl _⟩
      | inr h => exact habove h

namespace FilePath

theorem mem_ancestors {path ancestor : String} (h : ancestor ∈ ancestors path) :
    names ancestor <+: names path ∧ isAbsolute ancestor = isAbsolute path := by
  obtain ⟨spelling, hspelling, rfl⟩ := List.mem_map.mp h
  obtain ⟨rest, rfl, hrest⟩ := Spelling.mem_ancestors hspelling
  have hfront : rest.reverse <+: (Spelling.ofText path).body := by
    rw [← List.reverse_reverse (Spelling.ofText path).body]
    exact List.reverse_prefix.mpr hrest
  have hdivided : Spelling.IsDivided ⟨(Spelling.ofText path).lead, rest.reverse⟩ :=
    (Spelling.isDivided_ofText path).of_isPrefix hfront
  rw [names_text hdivided, isAbsolute_text hdivided, names_body path, isAbsolute_eq path]
  exact ⟨hfront.filter _, rfl⟩

/-- Of the paths without names only `.` has a parent, and that is the empty path. -/
theorem parent?_of_nameless {path parent : String} (h : parent? path = some parent) (hnames : names path = []) :
    parent = "" := by
  obtain ⟨spelling, hspelling, rfl⟩ := Option.map_eq_some_iff.mp h
  rw [names_body, ← Spelling.kept_trim] at hnames
  cases Spelling.trim_cases (Spelling.ofText path).body with
  | inl hnil =>
    unfold Spelling.parent? at hspelling
    rw [hnil] at hspelling
    split at hspelling
    · cases hspelling
      rfl
    · cases hspelling
    next hnonempty _ => exact absurd rfl hnonempty
  | inr hlast =>
    obtain ⟨init, part, htrim, hpart⟩ := hlast
    rw [htrim, Spelling.kept_concat hpart] at hnames
    exact absurd hnames (List.concat_ne_nil _ _)

end FilePath

theorem Writer.mem_directories {path directory : String} (h : directory ∈ directories path) :
    FilePath.names path ≠ [] ∧ FilePath.names directory <+: (FilePath.names path).dropLast ∧
      FilePath.isAbsolute directory = FilePath.isAbsolute path := by
  unfold directories at h
  obtain ⟨above, habove, hdirectory⟩ := List.mem_flatten.mp h
  obtain ⟨parent, hparent, rfl⟩ := Option.map_eq_some_iff.mp (Option.mem_toList.mp habove)
  obtain ⟨hparent, hnonempty⟩ := Option.filter_eq_some_iff.mp hparent
  obtain ⟨hnames, habsolute⟩ := FilePath.parent?_spec hparent
  obtain ⟨hfront, hsame⟩ := FilePath.mem_ancestors hdirectory
  refine ⟨fun hnil => ?_, hnames ▸ hfront, hsame.trans habsolute⟩
  rw [FilePath.parent?_of_nameless hparent hnil] at hnonempty
  cases hnonempty

namespace FileSystem

variable {fs after : FileSystem}

/-- Where the root does not go up, a directory above a file is somewhere else than the file. -/
theorem destination_directory_ne (fs : FileSystem) {root path directory : String}
    (hplain : FilePath.isPlain path = true) (hroot : ".." ∉ FilePath.names root)
    (h : directory ∈ Writer.directories (FilePath.join root path)) :
    fs.destination directory ≠ fs.destination (FilePath.join root path) := by
  obtain ⟨hrelative, hpath⟩ := (FilePath.isPlain_iff path).mp hplain
  obtain ⟨hnonempty, hfront, habsolute⟩ := Writer.mem_directories h
  have hup : ".." ∉ FilePath.names (FilePath.join root path) := by
    rw [FilePath.names_join root hrelative]
    exact fun hmem => (List.mem_append.mp hmem).elim hroot hpath
  have hup' : ".." ∉ FilePath.names directory := fun hmem =>
    hup ((hfront.trans (List.dropLast_prefix _)).subset hmem)
  unfold destination start
  rw [foldl_step hup, foldl_step hup', habsolute]
  intro hsame
  have hlength := hfront.length_le
  rw [List.append_cancel_left hsame, List.length_dropLast] at hlength
  have hpositive := List.length_pos_iff.mpr hnonempty
  omega

theorem destination_temporary_ne (fs : FileSystem) {path temporary : String}
    (h : Writer.temporary? path = some temporary) : fs.destination temporary ≠ fs.destination path := by
  obtain ⟨name, hname, -, -⟩ := Writer.temporary?_spec h
  obtain ⟨hlast, hup⟩ := FilePath.fileName?_eq_some.mp hname
  obtain ⟨init, hinit⟩ := List.getLast?_eq_some_iff.mp hlast
  have hplace : fs.destination path = init.foldl step (fs.start path) ++ [name] := by
    unfold destination
    rw [hinit, List.foldl_append, List.foldl_cons, List.foldl_nil, step, if_neg hup]
  rw [fs.destination_temporary h, hplace, Writer.beside_concat]
  intro hsame
  have hlonger := congrArg List.length (Writer.toList_temporaryName name)
  rw [List.singleton_inj.mp (List.append_cancel_left hsame)] at hlonger
  rw [List.length_cons, List.length_append, List.length_cons] at hlonger
  omega

/-- Making directories fills free places with directories, and does nothing else. -/
theorem foldlM_makeDirectory_node? {paths : List String} {calls : List SystemCall}
    (h : calls.foldlM perform fs = .ok after) (hcalls : ∀ call ∈ calls, ∃ path ∈ paths, call = .makeDirectory path)
    (location : Location) : after.node? location = fs.node? location ∨
      fs.node? location = none ∧ after.node? location = some .directory ∧
        ∃ path ∈ paths, fs.destination path = location := by
  induction calls generalizing fs with
  | nil =>
    cases h
    exact .inl rfl
  | cons call rest ih =>
    obtain ⟨⟨path, hpath, rfl⟩, hrest⟩ := List.forall_mem_cons.mp hcalls
    obtain ⟨next, hmade, h⟩ := foldlM_perform_cons.mp h
    have hkeeps := perform_keepsDirectories hmade
    obtain ⟨hfree, hnext⟩ := makeDirectory_ok hmade
    have hne : fs.destination path ≠ [] := ne_nil_of_not_directory (by rw [hfree]; exact nofun)
    have hnode : next.node? location =
        if location = fs.destination path then some .directory else fs.node? location := by
      rw [hnext, node?_put fs hne]
    by_cases hhere : location = fs.destination path
    · rw [if_pos hhere] at hnode
      have hthere := (foldlM_perform_keepsDirectories h).directories location hnode
      exact .inr ⟨hhere ▸ hfree, hthere, path, hpath, hhere.symm⟩
    · rw [if_neg hhere] at hnode
      have hlater := ih h hrest
      simpa only [hnode, hkeeps.destination] using hlater

end FileSystem

/-! ## Calls that are interrupted -/

/-- The beginnings of a row of calls. Of the data of the last call only a part may be written. -/
inductive Interrupted : List SystemCall → List SystemCall → Prop where
  | before (calls : List SystemCall) : Interrupted calls []
  | within (path : String) (front back : ByteArray) (rest : List SystemCall) :
      Interrupted (.append path (front ++ back) :: rest) [.append path front]
  | after (call : SystemCall) {calls done : List SystemCall} (h : Interrupted calls done) :
      Interrupted (call :: calls) (call :: done)

namespace Interrupted

variable {calls done : List SystemCall}

theorem append_cases : ∀ {front back done : List SystemCall}, Interrupted (front ++ back) done →
    Interrupted front done ∨ ∃ rest, done = front ++ rest ∧ Interrupted back rest
  | [], back, done, h => .inr ⟨done, rfl, h⟩
  | call :: front, back, done, h => by
    cases h with
    | before => exact .inl (.before _)
    | within path part others => exact .inl (.within path part others front)
    | after call h =>
      cases append_cases h with
      | inl hfront => exact .inl (.after call hfront)
      | inr hback =>
        obtain ⟨rest, rfl, hrest⟩ := hback
        exact .inr ⟨rest, rfl, hrest⟩

theorem trans {first second third : List SystemCall} (h : Interrupted first second)
    (h' : Interrupted second third) : Interrupted first third := by
  induction h generalizing third with
  | before calls =>
    cases h'
    exact .before calls
  | within path front back rest =>
    cases h' with
    | before => exact .before _
    | within _ front' back' _ =>
      rw [ByteArray.append_assoc]
      exact .within path front' (back' ++ back) rest
    | after _ h' =>
      cases h'
      exact .within path front back rest
  | after call _ ih =>
    cases h' with
    | before => exact .before _
    | within path front back _ => exact .within path front back _
    | after _ h' => exact .after call (ih h')

theorem forall_mem {P : SystemCall → Prop} (h : Interrupted calls done)
    (hpart : ∀ path front back, P (.append path (front ++ back)) → P (.append path front))
    (hcalls : ∀ call ∈ calls, P call) : ∀ call ∈ done, P call := by
  induction h with
  | before => exact fun call hcall => absurd hcall List.not_mem_nil
  | within path front back rest =>
    have hfront := hpart path front back (hcalls _ List.mem_cons_self)
    exact fun call hcall => List.mem_singleton.mp hcall ▸ hfront
  | after call h ih =>
    obtain ⟨hcall, hrest⟩ := List.forall_mem_cons.mp hcalls
    exact List.forall_mem_cons.mpr ⟨hcall, ih hrest⟩

end Interrupted

/-- Calls that were made in a row, whatever befell them, are interrupted ones; none is missing unless one
has failed. -/
theorem Machine.interrupted_performAll : ∀ (calls : List SystemCall) (machine : Machine) (done : List SystemCall),
    ∃ answer after later, recording.performAll calls (machine, done) = (answer, after, done ++ later) ∧
      Interrupted calls later ∧ later.foldlM FileSystem.perform machine.files = .ok after.files ∧
      (answer = .ok () → later = calls)
  | [], machine, done =>
    ⟨.ok (), machine, [], by rw [List.append_nil]; rfl, .before [], rfl, fun _ => rfl⟩
  | call :: rest, machine, done => by
    have hperforms := machine.performs call
    have hstep : recording.perform call (machine, done) =
        ((machine.perform call).1, (machine.perform call).2, done ++ machine.carriedOut call) := rfl
    generalize (machine.perform call).1 = answer, (machine.perform call).2 = next,
      machine.carriedOut call = carried at hperforms hstep
    rw [FileAccess.performAll, StateM.bind_run hstep]
    cases hperforms with
    | @done files hperform =>
      obtain ⟨answer, after, later, hall, hstop, hlater, hanswer⟩ :=
        interrupted_performAll rest (machine.past files) (done ++ [call])
      refine ⟨answer, after, call :: later, ?_, .after call hstop, ?_, fun hok => congrArg _ (hanswer hok)⟩
      · rw [List.append_cons done call later]
        exact hall
      · exact FileSystem.foldlM_perform_cons.mpr ⟨files, hperform, hlater⟩
    | refused error => exact ⟨_, _, [], rfl, .before _, rfl, nofun⟩
    | @brokenOff path front back files error hcall happend =>
      rw [hcall]
      exact ⟨_, _, [.append path front], rfl, .within path front back rest,
        FileSystem.foldlM_perform_cons.mpr ⟨files, happend, rfl⟩, nofun⟩

/-! ## What a beginning of a replacement leaves -/

namespace FileSystem

variable {fs after mid : FileSystem} {temporary path : String} {content : ByteArray}

/-- The temporary file holds this, and nothing else is changed. -/
structure Filled (fs : FileSystem) (temporary : String) (content : ByteArray) (after : FileSystem) : Prop where
  keeps : KeepsDirectories fs after
  held : after.file? (fs.destination temporary) = some content
  nodes : ∀ location, location ≠ fs.destination temporary → after.node? location = fs.node? location

theorem Filled.file? (h : Filled fs temporary content after) (location : Location) : after.file? location =
    if location = fs.destination temporary then some content else fs.file? location := by
  by_cases hlocation : location = fs.destination temporary
  · rw [if_pos hlocation, hlocation, h.held]
  · rw [if_neg hlocation]
    unfold FileSystem.file?
    rw [h.nodes location hlocation]

theorem filled_of_create (h : fs.create temporary = .ok after) : Filled fs temporary .empty after := by
  refine ⟨@perform_keepsDirectories _ _ (.create temporary) h, ?_, fun location hlocation => ?_⟩
  · rw [create_file? h, if_pos rfl]
  · exact @perform_node? _ _ (.create temporary) h location fun path hpath =>
      List.mem_singleton.mp hpath ▸ hlocation

theorem Filled.append {front more : ByteArray} (h : Filled fs temporary front mid)
    (happend : mid.append temporary more = .ok after) : Filled fs temporary (front ++ more) after := by
  obtain ⟨before, hbefore, hfiles⟩ := append_file? happend
  rw [h.keeps.destination, h.held] at hbefore
  cases hbefore
  refine ⟨h.keeps.trans (@perform_keepsDirectories _ _ (.append temporary more) happend), ?_,
    fun location hlocation => ?_⟩
  · rw [hfiles, h.keeps.destination, if_pos rfl]
  · rw [← h.nodes location hlocation]
    refine @perform_node? _ _ (.append temporary more) happend location fun path hpath => ?_
    rw [List.mem_singleton.mp hpath, h.keeps.destination]
    exact hlocation

/-- The content is at the path, and nothing at the temporary one. -/
structure Moved (fs : FileSystem) (temporary path : String) (content : ByteArray) (after : FileSystem) : Prop where
  keeps : KeepsDirectories fs after
  entry : ∃ target, after.target path = .ok target ∧ target.IsEntry
  files : ∀ location, after.file? location =
    if location = fs.destination path then some content
    else if location = fs.destination temporary then none else fs.file? location

theorem Filled.rename (h : Filled fs temporary content mid) (hmove : mid.rename temporary path = .ok after) :
    Moved fs temporary path content after := by
  have hmoved := @perform_keepsDirectories _ _ (.rename temporary path) hmove
  obtain ⟨moving, hmoving, hplaces⟩ := rename_file? hmove
  obtain ⟨target, -, htarget, hentry, -⟩ := rename_ok hmove
  rw [h.keeps.destination, h.held] at hmoving
  cases hmoving
  refine ⟨h.keeps.trans hmoved, ⟨target, hmoved.target htarget, hentry⟩, fun location => ?_⟩
  rw [hplaces, h.keeps.destination, h.keeps.destination, h.file?]
  by_cases hlocation : location = fs.destination temporary
  · rw [if_pos hlocation, if_pos hlocation]
  · rw [if_neg hlocation, if_neg hlocation, if_neg hlocation]

theorem Moved.node? (h : Moved fs temporary path content after) :
    after.node? (fs.destination path) = some (.file content) :=
  file?_eq_some.mp (by rw [h.files, if_pos rfl])

theorem foldlM_idle {calls : List SystemCall} (h : calls.foldlM perform fs = .ok after)
    (hcalls : ∀ call ∈ calls, ∃ path, call = .openDirectory path ∨ call = .sync path) : after = fs := by
  induction calls generalizing fs with
  | nil =>
    cases h
    rfl
  | cons call rest ih =>
    obtain ⟨⟨path, hcall⟩, hrest⟩ := List.forall_mem_cons.mp hcalls
    obtain ⟨next, hperform, h⟩ := foldlM_perform_cons.mp h
    rw [ih h hrest]
    cases hcall with
    | inl hopen => rw [hopen] at hperform; exact openDirectory_ok hperform
    | inr hsync => rw [hsync] at hperform; exact sync_ok hperform

end FileSystem

namespace Writer

open FileSystem

variable {fs after : FileSystem} {path temporary : String} {content : ByteArray} {made calls later : List SystemCall}

/-- The calls that bring the directory of a renamed file to the disk. -/
def idleCalls (path : String) : List SystemCall :=
  (parent? path).toList.flatMap fun parent => [.openDirectory parent, .sync parent]

theorem replacement_eq (temporary path : String) (content : ByteArray) : replacement temporary path content =
    [.create temporary, .append temporary content, .sync temporary] ++ .rename temporary path :: idleCalls path := rfl

theorem idle_of_mem {call : SystemCall} (h : call ∈ idleCalls path) :
    ∃ path, call = .openDirectory path ∨ call = .sync path := by
  obtain ⟨parent, -, hcall⟩ := List.mem_flatMap.mp h
  rw [List.mem_cons, List.mem_singleton] at hcall
  exact ⟨parent, hcall⟩

/-- Where a replacement stands after a beginning of its calls: nothing is done, a beginning of the content is in
the temporary file, or this file has been renamed. -/
inductive Stands (fs : FileSystem) (temporary path : String) (content : ByteArray) :
    FileSystem → List SystemCall → Prop where
  | untouched : Stands fs temporary path content fs []
  | filled {after : FileSystem} {front back : ByteArray} {later : List SystemCall}
      (hcontent : content = front ++ back) (hcreate : .create temporary ∈ later)
      (hmove : .rename temporary path ∉ later) (hfilled : Filled fs temporary front after) :
      Stands fs temporary path content after later
  | moved {after : FileSystem} {later : List SystemCall} (hmove : .rename temporary path ∈ later)
      (hmoved : Moved fs temporary path content after) : Stands fs temporary path content after later

theorem stands_of_interrupted (hstop : Interrupted (replacement temporary path content) later)
    (h : later.foldlM perform fs = .ok after) : Stands fs temporary path content after later := by
  rw [replacement_eq] at hstop
  cases hstop with
  | before =>
    cases h
    exact .untouched
  | after _ hstop =>
  obtain ⟨created, hcreate, h⟩ := foldlM_perform_cons.mp h
  have hempty := filled_of_create hcreate
  cases hstop with
  | before =>
    cases h
    exact .filled ByteArray.empty_append.symm (by simp) (by simp) hempty
  | within _ front back _ =>
    obtain ⟨filled, hfill, h⟩ := foldlM_perform_cons.mp h
    cases h
    have hfront := hempty.append hfill
    rw [ByteArray.empty_append] at hfront
    exact .filled rfl (by simp) (by simp) hfront
  | after _ hstop =>
  obtain ⟨filled, hfill, h⟩ := foldlM_perform_cons.mp h
  have hall := hempty.append hfill
  rw [ByteArray.empty_append] at hall
  cases hstop with
  | before =>
    cases h
    exact .filled ByteArray.append_empty.symm (by simp) (by simp) hall
  | after _ hstop =>
  obtain ⟨synced, hsync, h⟩ := foldlM_perform_cons.mp h
  rw [← sync_ok hsync] at hall
  cases hstop with
  | before =>
    cases h
    exact .filled ByteArray.append_empty.symm (by simp) (by simp) hall
  | after _ hstop =>
    -- from the renaming on nothing of the tree is changed
    obtain ⟨moved, hmove, h⟩ := foldlM_perform_cons.mp h
    have hsame := foldlM_idle h (hstop.forall_mem (by simp) fun _ => idle_of_mem)
    rw [hsame]
    exact .moved (by simp) (hall.rename hmove)

theorem moved_of_replacement (h : (replacement temporary path content).foldlM perform fs = .ok after) :
    Moved fs temporary path content after := by
  rw [replacement_eq] at h
  obtain ⟨created, hcreate, h⟩ := foldlM_perform_cons.mp h
  obtain ⟨filled, hfill, h⟩ := foldlM_perform_cons.mp h
  obtain ⟨synced, hsync, h⟩ := foldlM_perform_cons.mp h
  obtain ⟨moved, hmove, h⟩ := foldlM_perform_cons.mp h
  have hall := (filled_of_create hcreate).append hfill
  rw [ByteArray.empty_append, ← sync_ok hsync] at hall
  rw [foldlM_idle h fun _ => idle_of_mem]
  exact hall.rename hmove

/-! ## The course of a replacement -/

/-- Calls that make some of the directories above a file. -/
structure Makes (fs : FileSystem) (path : String) (between : FileSystem) (made : List SystemCall) : Prop where
  performed : made.foldlM perform fs = .ok between
  directories : ∀ call ∈ made, ∃ directory ∈ directories path, call = .makeDirectory directory

namespace Makes

variable {between : FileSystem} (h : Makes fs path between made)
include h

theorem keeps : KeepsDirectories fs between := foldlM_perform_keepsDirectories h.performed

theorem file? (location : Location) : between.file? location = fs.file? location := by
  apply foldlM_perform_file? h.performed
  intro call hcall file hfile
  obtain ⟨directory, -, rfl⟩ := h.directories call hcall
  cases hfile

end Makes

/-- How replacing a file goes: the answer, the files afterwards and the calls that were carried out. First
directories are made, and then come all calls of the replacement or a beginning of them. -/
inductive Course (fs : FileSystem) (path : String) (content : ByteArray) :
    Except WriteFault Unit → FileSystem → List SystemCall → Prop where
  | unbegun {between : FileSystem} {made : List SystemCall} {fault : WriteFault} (hmade : Makes fs path between made) :
      Course fs path content (.error fault) between made
  | begun {between after : FileSystem} {made later : List SystemCall} {temporary : String}
      {outcome : Except FileError Unit} (hmade : Makes fs path between made)
      (htemporary : temporary? path = some temporary)
      (hstop : Interrupted (replacement temporary path content) later)
      (hlater : later.foldlM perform between = .ok after)
      (houtcome : outcome = .ok () → later = replacement temporary path content) :
      Course fs path content (outcome.mapError .system) after (made ++ later)

theorem Course.moved (h : Course fs path content (.ok ()) after calls) : ∃ between made temporary,
    Makes fs path between made ∧ temporary? path = some temporary ∧ Moved between temporary path content after := by
  generalize hanswer : (.ok () : Except WriteFault Unit) = answer at h
  cases h with
  | unbegun _ => cases hanswer
  | @begun _ _ _ _ _ outcome hmade htemporary _ hlater houtcome =>
    cases outcome with
    | error error => cases hanswer
    | ok u =>
      rw [houtcome rfl] at hlater
      exact ⟨_, _, _, hmade, htemporary, moved_of_replacement hlater⟩

end Writer

namespace Machine

open FileSystem

theorem makes_of_makeAll (machine : Machine) (path : String) :
    Writer.Makes machine.files path (recording.makeAll (Writer.directories path) (machine, [])).2.1.files
      (recording.makeAll (Writer.directories path) (machine, [])).2.2 ∧
    (machine.troubles = [] → (recording.makeAll (Writer.directories path) (machine, [])).2.1.troubles = []) := by
  have hcall : ∀ directory ∈ Writer.directories path,
      Simulates (Recorded machine ((Writer.directories path).map .makeDirectory))
        (platform.files.perform (.makeDirectory directory)) (recording.perform (.makeDirectory directory)) :=
    fun directory hdirectory => simulates_recording (List.mem_map_of_mem hdirectory)
  obtain ⟨-, hsame, hreplayed, hamong, hcalm⟩ := simulates_makeAll simulates_recording_isDirectory hcall
    machine (machine, []) (recorded_start machine _)
  rw [← hsame] at hreplayed hcalm
  refine ⟨⟨hreplayed, fun call hcall => ?_⟩, hcalm⟩
  obtain ⟨whole, hwhole, hpart⟩ := hamong call hcall
  obtain ⟨directory, hdirectory, rfl⟩ := List.mem_map.mp hwhole
  cases hpart
  exact ⟨directory, hdirectory, rfl⟩

/-- After the directories, either something is wrong already or the calls of the replacement follow. -/
theorem replace_cases (machine : Machine) (path : String) (content : ByteArray) : ∃ between made,
    Writer.Makes machine.files path between.files made ∧ (machine.troubles = [] → between.troubles = []) ∧
    ((∃ fault, Writer.replace recording path content (machine, []) = (.error fault, between, made)) ∨
      ∃ temporary, Writer.temporary? path = some temporary ∧
        ∀ {outcome after calls}, recording.performAll (Writer.replacement temporary path content) (between, made) =
            (outcome, after, calls) →
          Writer.replace recording path content (machine, []) = (outcome.mapError .system, after, calls)) := by
  have hmakes := makes_of_makeAll machine path
  rcases hall : recording.makeAll (Writer.directories path) (machine, []) with ⟨outcome, between, made⟩
  rw [hall] at hmakes
  refine ⟨between, made, hmakes.1, hmakes.2, ?_⟩
  have hstep (next : Except FileError Unit → StateM (Machine × List SystemCall) (Except WriteFault Unit)) :
      (recording.makeAll (Writer.directories path) >>= next) (machine, []) = next outcome (between, made) :=
    StateM.bind_run hall next
  unfold Writer.directories at hstep
  unfold Writer.replace
  rw [hstep]
  cases outcome with
  | error error => exact .inl ⟨_, rfl⟩
  | ok u =>
    cases Writer.temporary? path with
    | none => exact .inl ⟨_, rfl⟩
    | some temporary => exact .inr ⟨temporary, rfl, fun hperformed => StateM.bind_run hperformed _⟩

theorem course_of_replace (machine : Machine) (path : String) (content : ByteArray) :
    Writer.Course machine.files path content (Writer.replace recording path content (machine, [])).1
      (Writer.replace recording path content (machine, [])).2.1.files
      (Writer.replace recording path content (machine, [])).2.2 := by
  obtain ⟨between, made, hmakes, -, ⟨fault, hfault⟩ | ⟨temporary, htemporary, hreplace⟩⟩ :=
    replace_cases machine path content
  · rw [hfault]
    exact .unbegun hmakes
  · obtain ⟨outcome, after, later, hperformed, hstop, hlater, houtcome⟩ :=
      interrupted_performAll (Writer.replacement temporary path content) between made
    rw [hreplace hperformed]
    exact .begun hmakes htemporary hstop hlater houtcome

end Machine

end TestMatrix
