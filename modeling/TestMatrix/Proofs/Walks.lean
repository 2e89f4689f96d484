import TestMatrix.Proofs.SystemCalls

/-!
# Which walks succeed

A path can be walked when its text is fit to be walked and all names but the last can be entered. So the
directory that a file is made in can be opened, and a file that was made beside a path can be renamed
onto it, unless the path is no place for a file.
-/

namespace TestMatrix

theorem splitSlash_getLast? : ∀ {chars : List Char}, (splitSlash chars).getLast? = some [] →
    chars = [] ∨ chars.getLast? = some '/'
  | [], _ => .inl rfl
  | c :: rest, h => by
    obtain ⟨part, parts, hrest⟩ := List.exists_cons_of_ne_nil (splitSlash_ne_nil rest)
    -- the last part of the text is that of the rest, unless the rest has no slash
    have hlast : (splitSlash rest).getLast? = some [] → (c :: rest).getLast? = some '/' ∨ rest = [] := by
      intro hnil
      cases splitSlash_getLast? hnil with
      | inl hempty => exact .inr hempty
      | inr hslash => exact .inl (by rw [List.getLast?_cons, hslash]; rfl)
    refine .inr ?_
    by_cases hc : c = '/'
    · rw [hc, splitSlash_slash, hrest, List.getLast?_cons_cons, ← hrest] at h
      cases hlast h with
      | inl hslash => exact hslash
      | inr hempty => rw [hc, hempty]; rfl
    · rw [splitSlash, if_neg hc, hrest] at h
      cases parts with
      | nil => cases h
      | cons next others =>
        dsimp only at h
        rw [List.getLast?_cons_cons, ← List.getLast?_cons_cons (a := part), ← hrest] at h
        refine (hlast h).resolve_right fun hempty => ?_
        rw [hempty] at hrest
        cases hrest

theorem pathParts_ne_nil (path : String) : pathParts path ≠ [] := by
  unfold pathParts
  simpa using splitSlash_ne_nil path.toList

theorem pathParts_getLast? {path : String} (h : (pathParts path).getLast? = some "") :
    path = "" ∨ path.toList.getLast? = some '/' := by
  unfold pathParts at h
  rw [List.getLast?_map] at h
  obtain ⟨part, hpart, hempty⟩ := Option.map_eq_some_iff.mp h
  have hnil : part = [] := by rw [← String.toList_ofList (l := part), hempty]; rfl
  rw [hnil] at hpart
  exact (splitSlash_getLast? hpart).imp String.toList_eq_nil_iff.mp id

namespace FileSystem

variable {fs after : FileSystem}

/-- What walking asks of the text of a path. -/
structure IsWalkable (path : String) : Prop where
  plain : path.toList.contains '\x00' = false
  nonempty : path ≠ ""
  short : path.utf8ByteSize ≤ pathLimit

theorem target_eq_ok {path : String} {target : Target} : fs.target path = .ok target ↔ IsWalkable path ∧
    (slashParts path = [] ∧ target = ⟨[], ".", true⟩ ∨
      ∃ init name directory, slashParts path = init ++ [name] ∧ init.foldlM fs.enter (fs.start path) = .ok directory ∧
        target = ⟨directory, name, path.toList.getLast? == some '/'⟩) := by
  constructor
  · intro h
    have hpath : IsWalkable path := by
      unfold FileSystem.target at h
      split at h
      · cases h
      next hplain =>
      split at h
      · cases h
      next hempty =>
      split at h
      · cases h
      next hshort => exact ⟨Bool.eq_false_iff.mpr hplain, mt String.isEmpty_iff.mpr hempty, Nat.not_lt.mp hshort⟩
    refine ⟨hpath, ?_⟩
    cases fs.target_cases h with
    | inl hroot => exact .inl ⟨hroot.1, hroot.2.2⟩
    | inr hlast => exact .inr hlast
  · intro h
    obtain ⟨hpath, hparts⟩ := h
    unfold FileSystem.target
    rw [if_neg (by rw [hpath.plain]; exact Bool.false_ne_true), if_neg (by simpa using hpath.nonempty),
      if_neg (Nat.not_lt.mpr hpath.short)]
    dsimp only
    cases hparts with
    | inl hroot =>
      obtain ⟨hnil, rfl⟩ := hroot
      rw [hnil]
      rfl
    | inr hlast =>
      obtain ⟨init, name, directory, hparts, hwalk, rfl⟩ := hlast
      rw [hparts, List.getLast?_concat, List.dropLast_concat]
      exact Except.map_eq_ok.mpr ⟨directory, hwalk, rfl⟩

theorem locate_of_target {path : String} {target : Target} (htarget : fs.target path = .ok target)
    (hnamed : target.isNamed = true →
      target.name.utf8ByteSize ≤ nameLimit ∧ fs.node? target.location = some .directory) :
    fs.locate path = .ok (target.location, .directory) := by
  unfold locate
  rw [htarget]
  dsimp only [Bind.bind, Except.bind]
  by_cases h : target.isNamed = true
  · obtain ⟨hshort, hnode⟩ := hnamed h
    rw [if_neg (by rw [h]; decide), if_neg (Nat.not_lt.mpr hshort), hnode]
    rfl
  · rw [if_pos (by simpa using h)]
    rfl

theorem enter_location {directory next : Location} {name : String} (h : fs.enter directory name = .ok next)
    (slash : Bool) : (Target.mk directory name slash).location = next ∧
      ((Target.mk directory name slash).isNamed = true →
        name.utf8ByteSize ≤ nameLimit ∧ fs.node? next = some .directory) := by
  unfold enter at h
  unfold Target.location Target.isNamed
  by_cases hdot : name = "."
  · rw [if_pos hdot] at h ⊢
    cases h
    simp [hdot]
  · by_cases hup : name = ".."
    · rw [if_neg hdot, if_pos hup] at h ⊢
      cases h
      simp [hup]
    · rw [if_neg hdot, if_neg hup] at h ⊢
      split at h
      · cases h
      next hshort =>
      split at h
      · cases h
      · cases h
      next hnode =>
        cases h
        exact ⟨rfl, fun _ => ⟨Nat.not_lt.mp hshort, hnode⟩⟩

/-- A path all of whose names can be entered leads to a directory. -/
theorem locate_of_entered {path : String} {location : Location} (hpath : IsWalkable path)
    (h : (slashParts path).foldlM fs.enter (fs.start path) = .ok location) :
    fs.locate path = .ok (location, .directory) := by
  cases List.eq_nil_or_concat' (slashParts path) with
  | inl hnil =>
    have htarget : fs.target path = .ok ⟨[], ".", true⟩ := target_eq_ok.mpr ⟨hpath, .inl ⟨hnil, rfl⟩⟩
    have hlocate := locate_of_target htarget nofun
    have hroot := isAbsolute_of_slashParts_eq_nil hpath.nonempty hnil
    rw [hnil, start, if_pos hroot] at h
    cases h
    exact hlocate
  | inr hlast =>
    obtain ⟨init, name, hparts⟩ := hlast
    rw [hparts, List.foldlM_append] at h
    obtain ⟨directory, hwalk, hname⟩ := Except.bind_eq_ok.mp h
    have hname : fs.enter directory name = .ok location := by simpa using hname
    have htarget := target_eq_ok.mpr ⟨hpath, .inr ⟨init, name, directory, hparts, hwalk, rfl⟩⟩
    obtain ⟨hlocation, hnamed⟩ := enter_location hname (path.toList.getLast? == some '/')
    rw [← hlocation] at hnamed ⊢
    exact locate_of_target htarget hnamed

/-! ## The directory of a temporary file -/

theorem IsWalkable.of_join {root path : String} (hroot : root ≠ "") (hpath : FilePath.isAbsolute path = false)
    (h : IsWalkable (FilePath.join root path)) : IsWalkable root := by
  obtain ⟨between, hjoin⟩ : ∃ between, FilePath.join root path = root ++ (between ++ path) := by
    unfold FilePath.join
    rw [if_neg (by rw [hpath]; exact Bool.false_ne_true)]
    split
    · exact ⟨"", by simp⟩
    · exact ⟨"/", by simp [String.append_assoc]⟩
  obtain ⟨hplain, -, hshort⟩ := h
  rw [hjoin] at hplain hshort
  refine ⟨?_, hroot, ?_⟩
  · rw [String.toList_append, List.contains_append, Bool.or_eq_false_iff] at hplain
    exact hplain.1
  · rw [String.utf8ByteSize_append] at hshort
    exact (Nat.le_add_right _ _).trans hshort

theorem locate_parent {path temporary parent : String} {target : Target}
    (htemporary : Writer.temporary? path = some temporary) (hparent : Writer.parent? path = some parent)
    (htarget : fs.target temporary = .ok target) : ∃ location, fs.locate parent = .ok (location, .directory) := by
  obtain ⟨name, hname, rfl⟩ := Option.map_eq_some_iff.mp htemporary
  obtain ⟨hparent, hnonempty⟩ := Option.filter_eq_some_iff.mp hparent
  have hrelative := Writer.isAbsolute_temporaryName name
  have hslash := Writer.slashParts_temporaryName (FilePath.isPart_of_fileName? hname)
  rw [hparent, Option.getD_some] at htarget
  change fs.target (FilePath.join parent (Writer.temporaryName name)) = _ at htarget
  obtain ⟨hpath, hparts⟩ := target_eq_ok.mp htarget
  rw [slashParts_join parent hrelative, hslash] at hparts
  cases hparts with
  | inl hroot => exact absurd hroot.1 (List.concat_ne_nil _ _)
  | inr hlast =>
    obtain ⟨init, last, directory, hinit, hwalk, -⟩ := hlast
    obtain ⟨hinit, -⟩ := List.append_inj' hinit rfl
    rw [start, FilePath.isAbsolute_join parent hrelative, ← hinit] at hwalk
    exact ⟨directory, locate_of_entered (hpath.of_join (by simpa using hnonempty) hrelative) hwalk⟩

theorem target_of_locate {path : String} {location : Location} (h : fs.locate path = .ok (location, .directory)) :
    ∃ target, fs.target path = .ok target ∧ target.location = location ∧ (target.isNamed = true →
      target.name.utf8ByteSize ≤ nameLimit ∧ fs.node? target.location = some .directory) := by
  unfold locate at h
  obtain ⟨target, htarget, h⟩ := Except.bind_eq_ok.mp h
  refine ⟨target, htarget, ?_⟩
  split at h
  next hnameless =>
    cases h
    exact ⟨rfl, fun hnamed => by rw [hnamed] at hnameless; cases hnameless⟩
  next =>
  split at h
  · cases h
  next hshort =>
  split at h
  · cases h
  next hnode =>
    cases h
    exact ⟨rfl, fun _ => ⟨Nat.not_lt.mp hshort, hnode⟩⟩
  next =>
    split at h <;> cases h

theorem KeepsDirectories.locate (h : KeepsDirectories fs after) {path : String} {location : Location}
    (hlocate : fs.locate path = .ok (location, .directory)) : after.locate path = .ok (location, .directory) := by
  obtain ⟨target, htarget, rfl, hnamed⟩ := target_of_locate hlocate
  refine locate_of_target (h.target htarget) fun hname => ?_
  obtain ⟨hshort, hnode⟩ := hnamed hname
  exact ⟨hshort, h.directories _ hnode⟩

/-! ## Making and renaming a file -/

theorem create_target {path : String} (h : fs.create path = .ok after) :
    ∃ target, fs.target path = .ok target ∧ target.IsEntry := by
  unfold create at h
  obtain ⟨target, htarget, h⟩ := Except.bind_eq_ok.mp h
  split at h
  · cases h
  next hentry =>
  split at h
  · cases h
  next hshort =>
  have hboth : target.isNamed = true ∧ target.slash = false := by simpa using hentry
  exact ⟨target, htarget, hboth.1, Nat.not_lt.mp hshort, hboth.2⟩

theorem locate_file {path : String} {target : Target} {content : ByteArray} (htarget : fs.target path = .ok target)
    (hentry : target.IsEntry) (h : fs.file? (fs.destination path) = some content) :
    fs.locate path = .ok (fs.destination path, .file content) := by
  rw [← fs.target_location htarget, file?_eq_some] at h
  rw [← fs.target_location htarget]
  unfold locate
  rw [htarget]
  simp [Bind.bind, Except.bind, Pure.pure, Except.pure, hentry.named, Nat.not_lt.mpr hentry.short, h, hentry.noSlash]

/-- A file that was just made can be written to. -/
theorem append_of_create {path : String} (h : fs.create path = .ok after) (content : ByteArray) :
    ∃ filled, after.append path content = .ok filled := by
  obtain ⟨target, htarget, hentry⟩ := create_target h
  have hkeeps : KeepsDirectories fs after := @perform_keepsDirectories _ _ (.create path) h
  have hempty : after.file? (after.destination path) = some .empty := by
    rw [hkeeps.destination, create_file? h, if_pos rfl]
  unfold append
  rw [locate_file (hkeeps.target htarget) hentry hempty]
  exact ⟨_, rfl⟩

/-- A path that leads to a place for a file ends in a component and is short enough. -/
theorem isDefinite_of_isEntry {path : String} {target : Target} (htarget : fs.target path = .ok target)
    (hentry : target.IsEntry) : IsDefinite path := by
  obtain ⟨hpath, hparts⟩ := target_eq_ok.mp htarget
  obtain ⟨hnamed, -, hslash⟩ := hentry
  refine ⟨?_, hpath.short⟩
  cases hparts with
  | inl hroot =>
    rw [hroot.2] at hnamed
    cases hnamed
  | inr hlast =>
    obtain ⟨init, name, directory, hparts, -, rfl⟩ := hlast
    obtain ⟨front, last, hdivided⟩ := (List.eq_nil_or_concat' _).resolve_left (pathParts_ne_nil path)
    have hnonempty : last ≠ "" := by
      intro hempty
      rw [hempty] at hdivided
      cases pathParts_getLast? (by rw [hdivided, List.getLast?_concat]) with
      | inl hnil => exact hpath.nonempty hnil
      | inr hend => exact (beq_eq_false_iff_ne.mp hslash) hend
    have hname : last = name := by
      rw [slashParts_eq, hdivided, List.filter_append] at hparts
      have hkept : [last].filter (fun part => decide (part ≠ "")) = [last] := by simp [hnonempty]
      rw [hkept] at hparts
      exact List.singleton_inj.mp (List.append_inj' hparts rfl).2
    have hidle : Spelling.isIdle last = false := by
      have hdot : last ≠ "." := by
        intro hdot
        rw [← hname, hdot] at hnamed
        cases hnamed
      simp [Spelling.isIdle, hnonempty, hdot]
    -- the lead of a path is idle, so the last part belongs to the body
    rw [Spelling.pathParts_eq hpath.nonempty] at hdivided
    cases List.eq_nil_or_concat' (Spelling.ofText path).body with
    | inl hnil =>
      rw [hnil, List.append_nil] at hdivided
      have hkept := Spelling.filter_leadPart (Spelling.ofText path).lead
      rw [hdivided, List.filter_append] at hkept
      simp [hidle] at hkept
    | inr hlast =>
      obtain ⟨parts, part, hbody⟩ := hlast
      rw [hbody, ← List.append_assoc] at hdivided
      rw [List.singleton_inj.mp (List.append_inj' hdivided rfl).2] at hbody
      exact ⟨parts, last, hbody, hidle⟩

/-- Where a path leads that ends in a component, from its names. -/
theorem target_of_names (fs : FileSystem) {path name : String} {init : List String} (hpath : IsDefinite path)
    (hnames : FilePath.names path = init ++ [name]) : fs.target path =
      if (init ++ [name]).any fun name => name.toList.contains '\x00' then .error .badPath
      else (init.foldlM fs.enter (fs.start path)).map fun directory => ⟨directory, name, false⟩ := by
  have hne : path ≠ "" := by
    intro hempty
    rw [hempty] at hnames
    exact List.concat_ne_nil _ _ hnames.symm
  have hwalked : walkedNames (FilePath.components path) = init ++ [name] := by
    rw [walkedNames_components hne, ← hnames, FilePath.names_eq_kept]
    rfl
  have hstart : (if (FilePath.components path).head? = some .root then [] else fs.workingDirectory) =
      fs.start path := by
    simp [start, FilePath.isAbsolute, head_components]
  rw [fs.target_eq_follow hpath]
  unfold follow
  dsimp only
  rw [hwalked, hstart, List.getLast?_concat, List.dropLast_concat]

/-- A file beside a path can be renamed onto it if the path ends in a name, and there is no directory. -/
theorem rename_of_isDefinite {path temporary : String} {target : Target} {content : ByteArray}
    (htemporary : Writer.temporary? path = some temporary) (htarget : fs.target temporary = .ok target)
    (hentry : target.IsEntry) (hcontent : fs.file? (fs.destination temporary) = some content)
    (hpath : IsDefinite path) (hplace : fs.node? (fs.destination path) ≠ some .directory) :
    ∃ after, fs.rename temporary path = .ok after := by
  obtain ⟨name, hname, hnames, habsolute⟩ := Writer.temporary?_spec htemporary
  obtain ⟨hlast, hup⟩ := FilePath.fileName?_eq_some.mp hname
  obtain ⟨init, hinit⟩ := List.getLast?_eq_some_iff.mp hlast
  rw [hinit, Writer.beside_concat] at hnames
  have hfrom := fs.target_of_names (isDefinite_of_isEntry htarget hentry) hnames
  have hto := fs.target_of_names hpath hinit
  rw [htarget] at hfrom
  split at hfrom
  · cases hfrom
  next hplain =>
  obtain ⟨directory, hwalk, rfl⟩ := Except.map_eq_ok.mp hfrom.symm
  have hplain' : (init ++ [name]).any (fun name => name.toList.contains '\x00') = false := by
    simpa [Writer.toList_temporaryName] using hplain
  have hstart : fs.start temporary = fs.start path := by unfold start; rw [habsolute]
  have hto : fs.target path = .ok ⟨directory, name, false⟩ := by
    rw [hto, hplain', ← hstart, hwalk]
    rfl
  have hnamed : (Target.mk directory name false).isNamed = true := by
    have hdot : name ≠ "." := by simpa using (List.mem_filter.mp (List.mem_of_getLast? hlast)).2
    simp [Target.isNamed, hdot, hup]
  have hshort : ¬ nameLimit < name.utf8ByteSize := by
    have hlonger := hentry.short
    simp only [Writer.temporaryName, String.utf8ByteSize_append] at hlonger
    omega
  rw [← fs.target_location htarget, file?_eq_some] at hcontent
  rw [← fs.target_location hto] at hplace
  unfold rename
  rw [htarget, hto]
  dsimp only [Bind.bind, Except.bind]
  rw [if_neg (by rw [hentry.named, hnamed]; decide), hcontent]
  dsimp only
  rw [if_neg hshort, if_neg (by decide)]
  split
  next hdirectory => exact absurd hdirectory hplace
  next => split <;> exact ⟨_, rfl⟩

end FileSystem

end TestMatrix
