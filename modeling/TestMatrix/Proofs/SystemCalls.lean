import TestMatrix.Proofs.Destinations

/-!
# What system calls do

A call that succeeds changes the tree only at the locations its paths spell, and never takes a directory
away. So what can be walked once can be walked ever after.
-/

namespace TestMatrix

namespace FileSystem

variable {fs after : FileSystem}

/-! ## Nodes -/

theorem lookup_putEntry (location other : Location) (node : Node) : ∀ entries : List (Location × Node),
    (putEntry location node entries).lookup other = if other = location then some node else entries.lookup other
  | [] => by
    by_cases h : other = location
    · rw [if_pos h, h]; simp [putEntry]
    · rw [if_neg h]; simp [putEntry, h]
  | entry :: rest => by
    obtain ⟨name, old⟩ := entry
    have ih := lookup_putEntry location other node rest
    rw [putEntry]
    by_cases hname : name = location
    · rw [if_pos hname, hname]
      by_cases h : other = location
      · simp [h]
      · simp [h, List.lookup_cons, beq_false_of_ne h]
    · rw [if_neg hname, List.lookup_cons, List.lookup_cons, ih]
      by_cases h : other = name
      · have hother : ¬ other = location := h ▸ hname
        simp [h, hname]
      · simp [beq_false_of_ne h]

theorem lookup_filter_ne (location other : Location) : ∀ entries : List (Location × Node),
    (entries.filter fun entry => entry.1 ≠ location).lookup other =
      if other = location then none else entries.lookup other
  | [] => by simp
  | entry :: rest => by
    obtain ⟨name, old⟩ := entry
    have ih := lookup_filter_ne location other rest
    by_cases hname : name = location
    · rw [List.filter_cons_of_neg (by simpa using hname), ih]
      by_cases h : other = location
      · rw [if_pos h, if_pos h]
      · have hother : ¬ other = name := by rw [hname]; exact h
        rw [if_neg h, if_neg h, List.lookup_cons, beq_false_of_ne hother]
    · rw [List.filter_cons_of_pos (by simpa using hname), List.lookup_cons, List.lookup_cons, ih]
      by_cases h : other = name
      · simp [h, hname]
      · simp [beq_false_of_ne h]

theorem node?_of_ne_nil (fs : FileSystem) {location : Location} (h : location ≠ []) :
    fs.node? location = fs.entries.lookup location := by
  unfold node?
  rw [if_neg (by simpa using h)]

theorem node?_put (fs : FileSystem) {location : Location} (h : location ≠ []) (node : Node) (other : Location) :
    (fs.put location node).node? other = if other = location then some node else fs.node? other := by
  by_cases hother : other = []
  · rw [hother, if_neg (Ne.symm h)]; rfl
  · rw [node?_of_ne_nil _ hother, node?_of_ne_nil _ hother]
    exact lookup_putEntry location other node fs.entries

theorem node?_remove (fs : FileSystem) {location : Location} (h : location ≠ []) (other : Location) :
    (fs.remove location).node? other = if other = location then none else fs.node? other := by
  by_cases hother : other = []
  · rw [hother, if_neg (Ne.symm h)]; rfl
  · rw [node?_of_ne_nil _ hother, node?_of_ne_nil _ hother]
    exact lookup_filter_ne location other fs.entries

theorem ne_nil_of_not_directory {location : Location} (h : fs.node? location ≠ some .directory) :
    location ≠ [] := by
  intro hnil
  rw [hnil] at h
  exact h rfl

/-- What the file at a location holds. -/
def file? (fs : FileSystem) (location : Location) : Option ByteArray :=
  match fs.node? location with
  | some (.file content) => some content
  | _ => none

/-- No directory is gone. -/
structure KeepsDirectories (fs after : FileSystem) : Prop where
  workingDirectory : after.workingDirectory = fs.workingDirectory
  directories : ∀ location, fs.node? location = some .directory → after.node? location = some .directory

theorem KeepsDirectories.refl (fs : FileSystem) : KeepsDirectories fs fs := ⟨rfl, fun _ h => h⟩

theorem KeepsDirectories.trans {first second third : FileSystem} (h : KeepsDirectories first second)
    (h' : KeepsDirectories second third) : KeepsDirectories first third :=
  ⟨h'.workingDirectory.trans h.workingDirectory, fun location hlocation =>
    h'.directories location (h.directories location hlocation)⟩

theorem keepsDirectories_put {location : Location} (h : fs.node? location ≠ some .directory) (node : Node) :
    KeepsDirectories fs (fs.put location node) := by
  refine ⟨rfl, fun other hother => ?_⟩
  have hne : other ≠ location := fun heq => h (heq ▸ hother)
  rw [node?_put fs (ne_nil_of_not_directory h), if_neg hne]
  exact hother

theorem keepsDirectories_remove {location : Location} (h : fs.node? location ≠ some .directory) :
    KeepsDirectories fs (fs.remove location) := by
  refine ⟨rfl, fun other hother => ?_⟩
  have hne : other ≠ location := fun heq => h (heq ▸ hother)
  rw [node?_remove fs (ne_nil_of_not_directory h), if_neg hne]
  exact hother

/-! ## Walking in a tree that keeps its directories -/

namespace KeepsDirectories

theorem destination (h : KeepsDirectories fs after) (path : String) :
    after.destination path = fs.destination path := by
  unfold FileSystem.destination FileSystem.start
  rw [h.workingDirectory]

theorem enter (h : KeepsDirectories fs after) {location next : Location} {name : String}
    (henter : fs.enter location name = .ok next) : after.enter location name = .ok next := by
  unfold FileSystem.enter at henter ⊢
  split_ifs at henter ⊢
  · exact henter
  · exact henter
  · split at henter
    · cases henter
    · cases henter
    next hnode => rw [h.directories _ hnode]; exact henter

theorem foldlM_enter (h : KeepsDirectories fs after) {names : List String} {start location : Location}
    (hwalk : names.foldlM fs.enter start = .ok location) : names.foldlM after.enter start = .ok location := by
  induction names generalizing start with
  | nil => exact hwalk
  | cons name rest ih =>
    rw [List.foldlM_cons] at hwalk ⊢
    obtain ⟨next, hnext, hrest⟩ := Except.bind_eq_ok.mp hwalk
    rw [h.enter hnext]
    exact ih hrest

theorem target (h : KeepsDirectories fs after) {path : String} {target : Target}
    (htarget : fs.target path = .ok target) : after.target path = .ok target := by
  unfold FileSystem.target at htarget ⊢
  dsimp only at htarget ⊢
  rw [h.workingDirectory]
  split_ifs at htarget ⊢
  all_goals
    cases hlast : (slashParts path).getLast? with
    | none =>
      rw [hlast] at htarget
      exact htarget
    | some name =>
      rw [hlast] at htarget
      obtain ⟨directory, hwalk, hdirectory⟩ := Except.map_eq_ok.mp htarget
      exact Except.map_eq_ok.mpr ⟨directory, h.foldlM_enter hwalk, hdirectory⟩

end KeepsDirectories

/-! ## Successful calls -/

theorem makeDirectory_ok {path : String} (h : fs.makeDirectory path = .ok after) :
    fs.node? (fs.destination path) = none ∧ after = fs.put (fs.destination path) .directory := by
  unfold makeDirectory at h
  obtain ⟨target, htarget, h⟩ := Except.bind_eq_ok.mp h
  rw [← fs.target_location htarget]
  split_ifs at h
  split at h
  · cases h
  next hnode =>
    cases h
    exact ⟨hnode, rfl⟩

theorem create_ok {path : String} (h : fs.create path = .ok after) :
    fs.node? (fs.destination path) ≠ some .directory ∧
      after = fs.put (fs.destination path) (.file .empty) := by
  unfold create at h
  obtain ⟨target, htarget, h⟩ := Except.bind_eq_ok.mp h
  rw [← fs.target_location htarget]
  split_ifs at h
  split at h
  · cases h
  next hnode =>
    cases h
    exact ⟨hnode, rfl⟩

theorem locate_ok {path : String} {location : Location} {content : ByteArray}
    (h : fs.locate path = .ok (location, .file content)) :
    location = fs.destination path ∧ fs.node? location = some (.file content) := by
  unfold locate at h
  obtain ⟨target, htarget, h⟩ := Except.bind_eq_ok.mp h
  rw [← fs.target_location htarget]
  cases hnode : fs.node? target.location with
  | none =>
    rw [hnode] at h
    split_ifs at h
    cases h
  | some node =>
    rw [hnode] at h
    cases node with
    | directory => split_ifs at h <;> cases h
    | file found =>
      dsimp only at h
      split_ifs at h
      all_goals cases h
      exact ⟨rfl, hnode⟩

theorem append_ok {path : String} {content : ByteArray} (h : fs.append path content = .ok after) :
    ∃ before, fs.node? (fs.destination path) = some (.file before) ∧
      after = fs.put (fs.destination path) (.file (before ++ content)) := by
  unfold append at h
  obtain ⟨⟨location, node⟩, hlocate, h⟩ := Except.bind_eq_ok.mp h
  cases node with
  | directory => cases h
  | file before =>
    obtain ⟨hlocation, hnode⟩ := locate_ok hlocate
    cases h
    rw [← hlocation]
    exact ⟨before, hnode, rfl⟩

/-- Whether a target can be a file's: it has a short enough name of its own and no slash behind it. -/
structure Target.IsEntry (target : Target) : Prop where
  named : target.isNamed = true
  short : target.name.utf8ByteSize ≤ nameLimit
  noSlash : target.slash = false

theorem rename_ok {source path : String} (h : fs.rename source path = .ok after) :
    ∃ target content, fs.target path = .ok target ∧ target.IsEntry ∧
      fs.node? (fs.destination source) = some (.file content) ∧
      fs.node? (fs.destination path) ≠ some .directory ∧
      after = if fs.destination source = fs.destination path then fs
        else (fs.remove (fs.destination source)).put (fs.destination path) (.file content) := by
  unfold rename at h
  obtain ⟨old, hold, h⟩ := Except.bind_eq_ok.mp h
  obtain ⟨new, hnew, h⟩ := Except.bind_eq_ok.mp h
  rw [← fs.target_location hold, ← fs.target_location hnew]
  split at h
  · cases h
  next hnamed =>
  split at h
  · cases h
  · cases h
  next content hcontent =>
  split at h
  · cases h
  next hshort =>
  split at h
  · cases h
  next hslash =>
  split at h
  · cases h
  next hnode =>
  have hboth : old.isNamed = true ∧ new.isNamed = true := by simpa using hnamed
  have hneither : old.slash = false ∧ new.slash = false := by simpa using hslash
  refine ⟨new, content, hnew, ⟨hboth.2, Nat.not_lt.mp hshort, hneither.2⟩, hcontent, hnode, ?_⟩
  split_ifs at h ⊢ <;> cases h <;> rfl

theorem openDirectory_ok {path : String} (h : fs.openDirectory path = .ok after) : after = fs := by
  obtain ⟨_, _, h⟩ := Except.map_eq_ok.mp h
  exact h.symm

theorem sync_ok {path : String} (h : fs.sync path = .ok after) : after = fs := by
  obtain ⟨_, _, h⟩ := Except.map_eq_ok.mp h
  exact h.symm

/-- A successful call takes no directory away. -/
theorem perform_keepsDirectories {call : SystemCall} (h : fs.perform call = .ok after) :
    KeepsDirectories fs after := by
  cases call with
  | makeDirectory path =>
    obtain ⟨hnone, rfl⟩ := makeDirectory_ok h
    exact keepsDirectories_put (by rw [hnone]; exact nofun) _
  | create path =>
    obtain ⟨hnode, rfl⟩ := create_ok h
    exact keepsDirectories_put hnode _
  | append path content =>
    obtain ⟨before, hnode, rfl⟩ := append_ok h
    exact keepsDirectories_put (by rw [hnode]; exact nofun) _
  | rename source path =>
    obtain ⟨target, content, -, -, hsource, hpath, rfl⟩ := rename_ok h
    have hsource' : fs.node? (fs.destination source) ≠ some .directory := by rw [hsource]; exact nofun
    by_cases hsame : fs.destination source = fs.destination path
    · rw [if_pos hsame]
      exact .refl fs
    · rw [if_neg hsame]
      have hremoved := node?_remove fs (ne_nil_of_not_directory hsource') (fs.destination path)
      rw [if_neg (Ne.symm hsame)] at hremoved
      exact (keepsDirectories_remove hsource').trans (keepsDirectories_put (by rw [hremoved]; exact hpath) _)
  | openDirectory path =>
    rw [openDirectory_ok h]
    exact .refl fs
  | sync path =>
    rw [sync_ok h]
    exact .refl fs

/-! ## Files -/

theorem file?_eq_some {location : Location} {content : ByteArray} :
    fs.file? location = some content ↔ fs.node? location = some (.file content) := by
  unfold file?
  cases fs.node? location with
  | none => simp
  | some node => cases node <;> simp

theorem file?_put (fs : FileSystem) {location : Location} (h : location ≠ []) (content : ByteArray)
    (other : Location) : (fs.put location (.file content)).file? other =
      if other = location then some content else fs.file? other := by
  unfold file?
  rw [node?_put fs h]
  by_cases hother : other = location
  · rw [if_pos hother, if_pos hother]
  · rw [if_neg hother, if_neg hother]

theorem file?_remove (fs : FileSystem) {location : Location} (h : location ≠ []) (other : Location) :
    (fs.remove location).file? other = if other = location then none else fs.file? other := by
  unfold file?
  rw [node?_remove fs h]
  by_cases hother : other = location
  · rw [if_pos hother, if_pos hother]
  · rw [if_neg hother, if_neg hother]

theorem makeDirectory_file? {path : String} (h : fs.makeDirectory path = .ok after) (location : Location) :
    after.file? location = fs.file? location := by
  obtain ⟨hnone, rfl⟩ := makeDirectory_ok h
  have hne : fs.destination path ≠ [] := ne_nil_of_not_directory (by rw [hnone]; exact nofun)
  unfold file?
  rw [node?_put fs hne]
  by_cases hlocation : location = fs.destination path
  · rw [if_pos hlocation, hlocation, hnone]
  · rw [if_neg hlocation]

theorem create_file? {path : String} (h : fs.create path = .ok after) (location : Location) :
    after.file? location = if location = fs.destination path then some .empty else fs.file? location := by
  obtain ⟨hnode, rfl⟩ := create_ok h
  exact file?_put fs (ne_nil_of_not_directory hnode) _ location

theorem append_file? {path : String} {content : ByteArray} (h : fs.append path content = .ok after) :
    ∃ before, fs.file? (fs.destination path) = some before ∧ ∀ location, after.file? location =
      if location = fs.destination path then some (before ++ content) else fs.file? location := by
  obtain ⟨before, hnode, rfl⟩ := append_ok h
  have hne : fs.destination path ≠ [] := ne_nil_of_not_directory (by rw [hnode]; exact nofun)
  exact ⟨before, file?_eq_some.mpr hnode, file?_put fs hne _⟩

theorem rename_file? {source path : String} (h : fs.rename source path = .ok after) :
    ∃ content, fs.file? (fs.destination source) = some content ∧ ∀ location, after.file? location =
      if location = fs.destination path then some content
      else if location = fs.destination source then none else fs.file? location := by
  obtain ⟨target, content, -, -, hsource, hpath, rfl⟩ := rename_ok h
  have hcontent := file?_eq_some.mpr hsource
  refine ⟨content, hcontent, fun location => ?_⟩
  by_cases hsame : fs.destination source = fs.destination path
  · rw [if_pos hsame, ← hsame]
    by_cases hlocation : location = fs.destination source
    · rw [if_pos hlocation, hlocation, hcontent]
    · rw [if_neg hlocation, if_neg hlocation]
  · have hne : fs.destination source ≠ [] := ne_nil_of_not_directory (by rw [hsource]; exact nofun)
    rw [if_neg hsame, file?_put _ (ne_nil_of_not_directory hpath), file?_remove fs hne]

/-- The content of a file where a path leads. -/
theorem read_eq {path : String} {target : Target} {content : ByteArray} (htarget : fs.target path = .ok target)
    (hentry : target.IsEntry) (h : fs.file? (fs.destination path) = some content) :
    fs.read path = .ok content := by
  rw [← fs.target_location htarget, file?_eq_some] at h
  unfold read locate
  rw [htarget]
  simp [Bind.bind, Except.bind, Pure.pure, Except.pure, hentry.named, Nat.not_lt.mpr hentry.short, h,
    hentry.noSlash]

theorem isFile_eq_false {path : String} (h : fs.file? (fs.destination path) = none) : fs.isFile path = false := by
  unfold isFile
  split
  next location content hlocate =>
    obtain ⟨rfl, hnode⟩ := locate_ok hlocate
    rw [file?_eq_some.mpr hnode] at h
    cases h
  next => rfl

end FileSystem

/-- The paths of the files that a call makes, empties, writes or moves. -/
def SystemCall.files : SystemCall → List String
  | .makeDirectory _ | .openDirectory _ | .sync _ => []
  | .create path | .append path _ => [path]
  | .rename source target => [source, target]

/-- The paths of all that a call makes, writes or moves. -/
def SystemCall.places : SystemCall → List String
  | .makeDirectory path | .create path | .append path _ => [path]
  | .rename source target => [source, target]
  | .openDirectory _ | .sync _ => []

namespace FileSystem

variable {fs after : FileSystem}

theorem perform_node? {call : SystemCall} (h : fs.perform call = .ok after) {location : Location}
    (hlocation : ∀ path ∈ call.places, location ≠ fs.destination path) :
    after.node? location = fs.node? location := by
  cases call with
  | makeDirectory path =>
    obtain ⟨hfree, rfl⟩ := makeDirectory_ok h
    have hne : fs.destination path ≠ [] := ne_nil_of_not_directory (by rw [hfree]; exact nofun)
    rw [node?_put fs hne, if_neg (hlocation path List.mem_cons_self)]
  | create path =>
    obtain ⟨hplace, rfl⟩ := create_ok h
    rw [node?_put fs (ne_nil_of_not_directory hplace), if_neg (hlocation path List.mem_cons_self)]
  | append path content =>
    obtain ⟨before, hplace, rfl⟩ := append_ok h
    have hne : fs.destination path ≠ [] := ne_nil_of_not_directory (by rw [hplace]; exact nofun)
    rw [node?_put fs hne, if_neg (hlocation path List.mem_cons_self)]
  | rename source path =>
    obtain ⟨target, content, -, -, hsource, hplace, rfl⟩ := rename_ok h
    have hne : fs.destination source ≠ [] := ne_nil_of_not_directory (by rw [hsource]; exact nofun)
    split
    · rfl
    · rw [node?_put _ (ne_nil_of_not_directory hplace), node?_remove fs hne,
        if_neg (hlocation path (by simp [SystemCall.places])), if_neg (hlocation source List.mem_cons_self)]
  | openDirectory path => rw [openDirectory_ok h]
  | sync path => rw [sync_ok h]

/-- A successful call leaves every file as it is that it does not name. -/
theorem perform_file? {call : SystemCall} (h : fs.perform call = .ok after) {location : Location}
    (hlocation : ∀ path ∈ call.files, location ≠ fs.destination path) :
    after.file? location = fs.file? location := by
  cases call with
  | makeDirectory path => exact makeDirectory_file? h location
  | _ =>
    -- of all other calls, the files are all that they touch
    unfold file?
    rw [perform_node? h hlocation]

end FileSystem

end TestMatrix
