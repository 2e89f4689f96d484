import TestMatrix.Files.Writer
import TestMatrix.Proofs.Outcomes
import TestMatrix.Proofs.Paths
import Mathlib.Data.List.DropRight

/-!
# Where written files lie

Of a path, the file system follows the names: the parts between slashes that are neither empty nor `.`.
Joining paths appends their names, and the temporary file beside a path takes the place of its last
name. Both hold for every spelling, so where a write ends up can be told from the names alone.
-/

namespace TestMatrix

/-! ## Names -/

/-- The slash that joining may put between two paths, or that the first has at its end, divides them. -/
theorem slashParts_join (root : String) {path : String} (h : FilePath.isAbsolute path = false) :
    slashParts (FilePath.join root path) = slashParts root ++ slashParts path := by
  unfold FilePath.join
  rw [if_neg (by rw [h]; exact Bool.false_ne_true)]
  by_cases hempty : root.isEmpty = true
  · rw [if_pos (by rw [hempty]; rfl), String.isEmpty_iff.mp hempty]
    simp [slashParts, splitSlash]
  · by_cases hslash : root.toList.getLast? = some '/'
    · obtain ⟨front, hfront⟩ := List.getLast?_eq_some_iff.mp hslash
      have hroot : root = String.ofList front ++ "/" ++ "" := by
        apply String.toList_injective
        simp [hfront]
      have hjoined : root ++ path = String.ofList front ++ "/" ++ path := by
        apply String.toList_injective
        simp [hfront]
      have hnone : slashParts "" = [] := rfl
      rw [if_pos (by rw [hslash]; simp), hjoined, slashParts_append]
      conv_rhs => rw [hroot, slashParts_append, hnone, List.append_nil]
    · rw [if_neg (by simpa [hempty] using hslash), slashParts_append]

theorem isAbsolute_of_slashParts_eq_nil {path : String} (hempty : path ≠ "") (h : slashParts path = []) :
    FilePath.isAbsolute path = true := by
  obtain ⟨c, rest, hchars⟩ := List.exists_cons_of_ne_nil (mt String.toList_eq_nil_iff.mp hempty)
  unfold FilePath.isAbsolute
  rw [hchars]
  by_contra hc
  obtain ⟨part, parts, -, hcons⟩ := splitSlash_cons (c := c) (by simpa using hc) rest
  unfold slashParts at h
  rw [hchars, hcons] at h
  simp at h

namespace Spelling

/-- The parts that are components. -/
def kept (parts : List String) : List String := parts.filter fun part => !isIdle part

theorem kept_append (front back : List String) : kept (front ++ back) = kept front ++ kept back :=
  List.filter_append ..

theorem kept_concat {part : String} (h : isIdle part = false) (parts : List String) :
    kept (parts ++ [part]) = kept parts ++ [part] := by
  rw [kept_append]
  simp [kept, h]

theorem trim_eq (body : List String) : trim body = body.rdropWhile isIdle := rfl

theorem kept_trim (body : List String) : kept (trim body) = kept body := by
  induction body using List.reverseRecOn with
  | nil => rfl
  | append_singleton body part ih =>
    rw [trim_eq, List.rdropWhile_concat]
    by_cases h : isIdle part = true
    · rw [if_pos h, kept_append]
      have hpart : kept [part] = [] := by simp [kept, h]
      rw [hpart, List.append_nil]
      exact ih
    · rw [if_neg h]

/-- A trimmed body is empty, or ends in a component. -/
theorem trim_cases (body : List String) : trim body = [] ∨
    ∃ init part, trim body = init ++ [part] ∧ isIdle part = false := by
  induction body using List.reverseRecOn with
  | nil => exact .inl rfl
  | append_singleton body part ih =>
    rw [trim_eq, List.rdropWhile_concat]
    by_cases h : isIdle part = true
    · rw [if_pos h]; exact ih
    · rw [if_neg h]; exact .inr ⟨body, part, rfl, Bool.eq_false_iff.mpr h⟩

theorem trim_isPrefix (body : List String) : trim body <+: body :=
  List.rdropWhile_prefix isIdle body

theorem parent?_of_trim {lead : Option Lead} {body init : List String} {part : String}
    (htrim : trim body = init ++ [part]) : parent? ⟨lead, body⟩ = some ⟨lead, trim init⟩ := by
  have hne : init ++ [part] ≠ [] := List.concat_ne_nil part init
  unfold parent?
  dsimp only
  rw [htrim]
  split
  next hnil => exact absurd hnil hne
  next hnil _ => exact absurd hnil hne
  next => rw [List.dropLast_concat]

/-- A spelling whose parts are those of its text. -/
structure IsDivided (spelling : Spelling) : Prop where
  parts : ∀ part ∈ spelling.body, IsPart part
  /-- Without a lead, an empty part at the beginning would be a root. -/
  first : spelling.lead = none → spelling.body.head? ≠ some ""

theorem isDivided_ofText (path : String) : IsDivided (ofText path) := by
  by_cases hempty : path = ""
  · rw [hempty]
    exact ⟨fun part h => absurd h List.not_mem_nil, fun _ h => by cases h⟩
  · refine ⟨fun part h => ?_, fun hlead hfirst => ?_⟩
    · have hpart : part ∈ pathParts path := by
        rw [pathParts_eq hempty]
        exact List.mem_append_right _ h
      exact isPart_of_mem_pathParts hpart
    · have hparts := pathParts_eq hempty
      rw [hlead] at hparts
      obtain ⟨c, rest, hchars⟩ := List.exists_cons_of_ne_nil (mt String.toList_eq_nil_iff.mp hempty)
      have hc : c ≠ '/' := by
        intro hc
        have hroot := (lead_root path).mpr (by rw [hchars, hc]; rfl)
        rw [hlead] at hroot
        cases hroot
      obtain ⟨part, parts, -, hcons⟩ := splitSlash_cons hc rest
      unfold pathParts at hparts
      rw [hchars, hcons] at hparts
      change _ = (ofText path).body at hparts
      rw [← hparts] at hfirst
      have hnil := congrArg String.toList (Option.some.inj hfirst)
      rw [String.toList_ofList] at hnil
      cases hnil

theorem IsDivided.of_isPrefix {lead : Option Lead} {body front : List String} (h : IsDivided ⟨lead, body⟩)
    (hfront : front <+: body) : IsDivided ⟨lead, front⟩ := by
  refine ⟨fun part hpart => h.parts part (hfront.subset hpart), fun hlead hfirst => ?_⟩
  obtain ⟨rest, hrest⟩ := hfront
  have hbody := h.first hlead
  dsimp only at hbody hfirst
  rw [← hrest, List.head?_append, hfirst] at hbody
  exact hbody rfl

theorem join_slashes (body : List String) (first : String) :
    String.join (first :: body.map fun part => "/" ++ part) = String.intercalate "/" (first :: body) := by
  induction body generalizing first with
  | nil => simp
  | cons second rest ih =>
    rw [String.intercalate_cons_cons, ← ih second]
    simp [String.append_assoc]

end Spelling

namespace FilePath

/-- The names by which the file system walks a path: what stands between its slashes and is not `.`. -/
def names (path : String) : List String := (slashParts path).filter (· ≠ ".")

theorem names_eq_kept (path : String) : names path = Spelling.kept (pathParts path) := by
  unfold names Spelling.kept
  rw [slashParts_eq, List.filter_filter]
  apply List.filter_congr
  intro part _
  by_cases hdot : part = "." <;> by_cases hempty : part = "" <;> simp [Spelling.isIdle, hdot, hempty]

theorem names_body (path : String) : names path = Spelling.kept (Spelling.ofText path).body := by
  by_cases h : path = ""
  · rw [h]; rfl
  · rw [names_eq_kept, Spelling.pathParts_eq h, Spelling.kept_append]
    have hlead : Spelling.kept (Spelling.leadPart (Spelling.ofText path).lead) = [] := Spelling.filter_leadPart _
    rw [hlead, List.nil_append]

theorem names_text {spelling : Spelling} (h : spelling.IsDivided) :
    names spelling.text = Spelling.kept spelling.body := by
  have hbody : names (String.intercalate "/" spelling.body) = Spelling.kept spelling.body := by
    by_cases hnil : spelling.body = []
    · rw [hnil]; rfl
    · rw [names_eq_kept, pathParts_intercalate hnil, flatMap_pathParts h.parts]
  unfold Spelling.text
  cases spelling.lead with
  | none => exact hbody
  | some lead =>
    cases lead with
    | root =>
      have hroot := slashParts_append "" (String.intercalate "/" spelling.body)
      exact (congrArg (List.filter (· ≠ ".")) hroot).trans hbody
    | here =>
      have hparts : ∀ part ∈ "." :: spelling.body, IsPart part := by
        intro part hpart
        cases List.mem_cons.mp hpart with
        | inl hdot => rw [hdot]; unfold IsPart; decide
        | inr hpart => exact h.parts part hpart
      change names (String.join ("." :: spelling.body.map fun part => "/" ++ part)) = _
      rw [names_eq_kept, Spelling.join_slashes, pathParts_intercalate (List.cons_ne_nil _ _), flatMap_pathParts hparts]
      rfl

theorem isAbsolute_text {spelling : Spelling} (h : spelling.IsDivided) :
    isAbsolute spelling.text = (spelling.lead == some .root) := by
  obtain ⟨lead, body⟩ := spelling
  unfold Spelling.text isAbsolute
  cases lead with
  | none =>
    dsimp only
    cases body with
    | nil => rfl
    | cons first rest =>
      have hfirst : first.toList ≠ [] := by
        intro hnil
        exact h.first rfl (congrArg some (String.toList_eq_nil_iff.mp hnil))
      obtain ⟨c, chars, hchars⟩ := List.exists_cons_of_ne_nil hfirst
      have hc : c ≠ '/' := by
        intro hc
        apply h.parts first List.mem_cons_self
        rw [hchars, hc]
        exact List.mem_cons_self
      have hhead : (String.intercalate "/" (first :: rest)).toList.head? = some c := by
        cases rest with
        | nil => simp [hchars]
        | cons second rest => simp [hchars]
      rw [hhead]
      simpa using hc
  | some lead =>
    cases lead with
    | root => simp
    | here => simp [String.toList_join]

theorem isAbsolute_eq (path : String) : isAbsolute path = ((Spelling.ofText path).lead == some .root) := by
  rw [Bool.eq_iff_iff, beq_iff_eq, lead_root]
  simp [isAbsolute]

/-! ## Joining, parents and temporary files -/

theorem names_join (root : String) {path : String} (h : isAbsolute path = false) :
    names (join root path) = names root ++ names path := by
  unfold names
  rw [slashParts_join root h, List.filter_append]

theorem isAbsolute_join (root : String) {path : String} (h : isAbsolute path = false) :
    isAbsolute (join root path) = isAbsolute root := by
  unfold join
  rw [if_neg (by rw [h]; exact Bool.false_ne_true)]
  by_cases hempty : root = ""
  · rw [hempty]
    simpa [isAbsolute] using h
  · obtain ⟨c, rest, hroot⟩ := List.exists_cons_of_ne_nil (mt String.toList_eq_nil_iff.mp hempty)
    unfold isAbsolute
    by_cases hslash : (root.isEmpty || root.toList.getLast? == some '/') = true
    · rw [if_pos hslash]; simp [hroot]
    · rw [if_neg hslash]; simp [hroot]

/-- The parent of a path follows all its names but the last. -/
theorem parent?_spec {path parent : String} (h : parent? path = some parent) :
    names parent = (names path).dropLast ∧ isAbsolute parent = isAbsolute path := by
  obtain ⟨spelling, hspelling, rfl⟩ := Option.map_eq_some_iff.mp h
  have hdivided := Spelling.isDivided_ofText path
  rw [names_body path, ← Spelling.kept_trim, isAbsolute_eq path]
  revert hspelling hdivided
  generalize Spelling.ofText path = whole
  obtain ⟨lead, body⟩ := whole
  intro hspelling hdivided
  dsimp only
  cases Spelling.trim_cases body with
  | inl hnil =>
    -- only a path that comes down to `.` has a parent without having a name
    unfold Spelling.parent? at hspelling
    dsimp only at hspelling
    rw [hnil] at hspelling ⊢
    cases lead with
    | none => cases hspelling
    | some lead =>
      cases lead with
      | root => cases hspelling
      | here =>
        cases hspelling
        exact ⟨rfl, rfl⟩
  | inr hlast =>
    obtain ⟨init, part, htrim, hpart⟩ := hlast
    rw [Spelling.parent?_of_trim htrim] at hspelling
    cases hspelling
    have hprefix : Spelling.trim init <+: body := by
      have hinit : init <+: Spelling.trim body := by rw [htrim]; exact List.prefix_append _ _
      exact (Spelling.trim_isPrefix init).trans (hinit.trans (Spelling.trim_isPrefix body))
    have hparent := hdivided.of_isPrefix hprefix
    rw [names_text hparent, isAbsolute_text hparent, Spelling.kept_trim, htrim, Spelling.kept_concat hpart,
      List.dropLast_concat]
    exact ⟨rfl, rfl⟩

theorem names_of_parent?_eq_none {path : String} (h : parent? path = none) : names path = [] := by
  have hnone := Option.map_eq_none_iff.mp h
  rw [names_body, ← Spelling.kept_trim]
  cases Spelling.trim_cases (Spelling.ofText path).body with
  | inl hnil => rw [hnil]; rfl
  | inr hlast =>
    obtain ⟨init, part, htrim, -⟩ := hlast
    rw [Spelling.parent?_of_trim htrim] at hnone
    cases hnone

theorem fileName?_eq_some {path name : String} :
    fileName? path = some name ↔ (names path).getLast? = some name ∧ name ≠ ".." := by
  unfold fileName? Spelling.fileName?
  rw [names_body, ← Spelling.kept_trim]
  cases Spelling.trim_cases (Spelling.ofText path).body with
  | inl hnil => rw [hnil]; simp [Spelling.kept]
  | inr hlast =>
    obtain ⟨init, part, htrim, hpart⟩ := hlast
    rw [htrim, Spelling.kept_concat hpart, List.getLast?_concat, List.getLast?_concat]
    dsimp only
    by_cases hup : part = ".."
    · rw [if_pos hup, hup]
      exact ⟨(nomatch ·), fun h => absurd (Option.some.inj h.1).symm h.2⟩
    · rw [if_neg hup]
      exact ⟨fun h => ⟨h, Option.some.inj h ▸ hup⟩, fun h => h.1⟩

theorem isPart_of_fileName? {path name : String} (h : fileName? path = some name) : IsPart name := by
  have hmem := List.mem_of_getLast? (fileName?_eq_some.mp h).1
  rw [names_eq_kept] at hmem
  exact isPart_of_mem_pathParts (List.mem_filter.mp hmem).1

theorem up_mem_components (path : String) : Component.up ∈ components path ↔ ".." ∈ names path := by
  have hbody (parts : List String) :
      Component.up ∈ (parts.map fun part => if part = ".." then .up else .name part) ↔ ".." ∈ parts := by
    rw [List.mem_map]
    constructor
    · intro h
      obtain ⟨part, hpart, hup⟩ := h
      by_cases hname : part = ".."
      · rw [← hname]; exact hpart
      · rw [if_neg hname] at hup; cases hup
    · intro h
      exact ⟨"..", h, rfl⟩
  rw [names_body]
  unfold components Spelling.components
  cases (Spelling.ofText path).lead with
  | none => exact hbody _
  | some lead => cases lead <;> exact (List.mem_cons.trans (or_iff_right (by decide))).trans (hbody _)

theorem root_mem_components (path : String) : Component.root ∈ components path ↔ isAbsolute path = true := by
  have hbody (parts : List String) :
      Component.root ∉ parts.map fun part => if part = ".." then .up else .name part := by
    intro h
    obtain ⟨part, -, hroot⟩ := List.mem_map.mp h
    by_cases hname : part = ".."
    · rw [if_pos hname] at hroot; cases hroot
    · rw [if_neg hname] at hroot; cases hroot
  rw [isAbsolute_eq]
  unfold components Spelling.components
  cases (Spelling.ofText path).lead with
  | none => exact iff_of_false (hbody _) (by decide)
  | some lead =>
    cases lead with
    | root => exact iff_of_true List.mem_cons_self (by decide)
    | here => exact iff_of_false (fun h => hbody _ ((List.mem_cons.mp h).resolve_left (by decide))) (by decide)

/-- Plain paths are those that neither begin at the root nor go up. -/
theorem isPlain_iff (path : String) : isPlain path = true ↔ isAbsolute path = false ∧ ".." ∉ names path := by
  rw [← Bool.not_eq_true, ← root_mem_components, ← up_mem_components]
  unfold isPlain
  rw [List.all_eq_true]
  constructor
  · intro h
    constructor
    · intro hroot; cases h _ hroot
    · intro hup; cases h _ hup
  · intro h component hcomponent
    cases component with
    | root => exact absurd hcomponent h.1
    | up => exact absurd hcomponent h.2
    | here => rfl
    | name text => rfl

end FilePath

namespace Writer

/-- The name of the temporary file for a file of this name. -/
def temporaryName (name : String) : String := "." ++ name ++ ".tmp"

theorem toList_temporaryName (name : String) :
    (temporaryName name).toList = '.' :: (name.toList ++ ['.', 't', 'm', 'p']) := by
  simp [temporaryName]

theorem isAbsolute_temporaryName (name : String) : FilePath.isAbsolute (temporaryName name) = false := by
  simp [FilePath.isAbsolute, temporaryName]

theorem slashParts_temporaryName {name : String} (h : IsPart name) :
    slashParts (temporaryName name) = [temporaryName name] := by
  have hpart : IsPart (temporaryName name) := by
    unfold IsPart at h ⊢
    rw [toList_temporaryName]
    simpa using h
  have hempty : temporaryName name ≠ "" := by
    intro hnil
    have hchars := toList_temporaryName name
    rw [hnil] at hchars
    cases hchars
  exact slashParts_of_isStep ⟨hempty, hpart⟩

theorem names_temporaryName {name : String} (h : IsPart name) :
    FilePath.names (temporaryName name) = [temporaryName name] := by
  have hdot : temporaryName name ≠ "." := by
    intro hdot
    have hchars := toList_temporaryName name
    rw [hdot] at hchars
    simp at hchars
  unfold FilePath.names
  rw [slashParts_temporaryName h]
  simp [hdot]

/-- The names of the temporary file beside the file of these names. -/
def beside (names : List String) : List String :=
  names.dropLast ++ names.getLast?.toList.map temporaryName

theorem beside_concat (names : List String) (name : String) :
    beside (names ++ [name]) = names ++ [temporaryName name] := by
  unfold beside
  rw [List.dropLast_concat, List.getLast?_concat]
  rfl

theorem beside_append (front : List String) {names : List String} (h : names ≠ []) :
    beside (front ++ names) = front ++ beside names := by
  obtain ⟨init, name, hnames⟩ := (List.eq_nil_or_concat' names).resolve_left h
  rw [hnames, ← List.append_assoc, beside_concat, beside_concat, List.append_assoc]

theorem temporary?_spec {path temporary : String} (h : temporary? path = some temporary) :
    ∃ name, FilePath.fileName? path = some name ∧
      FilePath.names temporary = beside (FilePath.names path) ∧
      FilePath.isAbsolute temporary = FilePath.isAbsolute path := by
  obtain ⟨name, hname, rfl⟩ := Option.map_eq_some_iff.mp h
  refine ⟨name, hname, ?_⟩
  obtain ⟨hlast, -⟩ := FilePath.fileName?_eq_some.mp hname
  obtain ⟨init, hnames⟩ := List.getLast?_eq_some_iff.mp hlast
  have hpart := FilePath.isPart_of_fileName? hname
  have hrelative : FilePath.isAbsolute ("." ++ name ++ ".tmp") = false := isAbsolute_temporaryName name
  cases hparent : FilePath.parent? path with
  | none =>
    rw [FilePath.names_of_parent?_eq_none hparent] at hnames
    simp at hnames
  | some parent =>
    obtain ⟨hinit, habs⟩ := FilePath.parent?_spec hparent
    rw [hnames, List.dropLast_concat] at hinit
    rw [Option.getD_some, FilePath.isAbsolute_join parent hrelative, FilePath.names_join parent hrelative,
      habs, hinit, hnames, beside_concat]
    exact ⟨congrArg (init ++ ·) (names_temporaryName hpart), rfl⟩

end Writer

/-! ## Locations -/

namespace FileSystem

variable (fs : FileSystem)

/-- Where walking a path begins. -/
def start (path : String) : Location := if FilePath.isAbsolute path then [] else fs.workingDirectory

/-- Where a name leads from a directory. -/
def step (location : Location) (name : String) : Location :=
  if name = ".." then location.dropLast else location ++ [name]

/-- The location that a path spells. -/
def destination (path : String) : Location :=
  (FilePath.names path).foldl step (fs.start path)

theorem foldl_step {names : List String} (h : ".." ∉ names) (start : Location) :
    names.foldl step start = start ++ names := by
  induction names generalizing start with
  | nil => simp
  | cons name rest ih =>
    rw [List.mem_cons, not_or] at h
    rw [List.foldl_cons, ih h.2, step, if_neg (Ne.symm h.1), List.append_assoc]
    rfl

theorem destination_join (root : String) {path : String} (h : FilePath.isPlain path = true) :
    fs.destination (FilePath.join root path) = fs.destination root ++ FilePath.names path := by
  obtain ⟨hrelative, hup⟩ := (FilePath.isPlain_iff path).mp h
  unfold destination start
  rw [FilePath.names_join root hrelative, FilePath.isAbsolute_join root hrelative, List.foldl_append,
    foldl_step hup]

theorem destination_join_inj (root : String) {path other : String} (h : FilePath.isPlain path = true)
    (hother : FilePath.isPlain other = true) :
    fs.destination (FilePath.join root path) = fs.destination (FilePath.join root other) ↔
      FilePath.names path = FilePath.names other := by
  rw [fs.destination_join root h, fs.destination_join root hother, List.append_cancel_left_eq]

theorem destination_join_eq_beside (root : String) {path other : String} (h : FilePath.isPlain path = true)
    (hother : FilePath.isPlain other = true) (hnamed : FilePath.names other ≠ []) :
    fs.destination (FilePath.join root path) = Writer.beside (fs.destination (FilePath.join root other)) ↔
      FilePath.names path = Writer.beside (FilePath.names other) := by
  rw [fs.destination_join root h, fs.destination_join root hother, Writer.beside_append _ hnamed,
    List.append_cancel_left_eq]

theorem destination_temporary {path temporary : String} (h : Writer.temporary? path = some temporary) :
    fs.destination temporary = Writer.beside (fs.destination path) := by
  obtain ⟨name, hname, hnames, habs⟩ := Writer.temporary?_spec h
  obtain ⟨hlast, hup⟩ := FilePath.fileName?_eq_some.mp hname
  obtain ⟨init, hinit⟩ := List.getLast?_eq_some_iff.mp hlast
  have htemporary : Writer.temporaryName name ≠ ".." := by
    intro h
    have hlength := congrArg (fun text => text.toList.length) h
    simp [Writer.temporaryName] at hlength
  unfold destination start
  rw [hnames, habs, hinit, Writer.beside_concat, List.foldl_append, List.foldl_append]
  simp only [List.foldl_cons, List.foldl_nil]
  rw [step, step, if_neg hup, if_neg htemporary, Writer.beside_concat]

theorem enter_ok {location next : Location} {name : String} (h : fs.enter location name = .ok next) :
    next = if name = "." then location else step location name := by
  unfold enter at h
  unfold step
  split_ifs at h ⊢ <;> try cases h
  · rfl
  · rfl
  · split at h <;> cases h
    rfl

theorem foldlM_enter_ok {names : List String} {start location : Location}
    (h : names.foldlM fs.enter start = .ok location) :
    location = (names.filter (· ≠ ".")).foldl step start := by
  induction names generalizing start with
  | nil =>
    cases h
    rfl
  | cons name rest ih =>
    rw [List.foldlM_cons] at h
    obtain ⟨next, hnext, hrest⟩ := Except.bind_eq_ok.mp h
    rw [ih hrest, fs.enter_ok hnext]
    by_cases hname : name = "."
    · rw [if_pos hname, List.filter_cons_of_neg (by simpa using hname)]
    · rw [if_neg hname, List.filter_cons_of_pos (by simpa using hname), List.foldl_cons]

/-- What a path that can be walked comes down to. -/
theorem target_cases {path : String} {target : Target} (h : fs.target path = .ok target) :
    (slashParts path = [] ∧ FilePath.isAbsolute path = true ∧ target = ⟨[], ".", true⟩) ∨
    ∃ init name directory, slashParts path = init ++ [name] ∧
      init.foldlM fs.enter (fs.start path) = .ok directory ∧
      target = ⟨directory, name, path.toList.getLast? == some '/'⟩ := by
  unfold FileSystem.target at h
  split at h
  · cases h
  split at h
  · cases h
  next hempty =>
  split at h
  · cases h
  dsimp only at h
  cases hlast : (slashParts path).getLast? with
  | none =>
    have hnil := List.getLast?_eq_none_iff.mp hlast
    rw [hlast] at h
    cases h
    exact .inl ⟨hnil, isAbsolute_of_slashParts_eq_nil (mt String.isEmpty_iff.mpr hempty) hnil, rfl⟩
  | some name =>
    obtain ⟨init, hparts⟩ := List.getLast?_eq_some_iff.mp hlast
    rw [hlast, hparts, List.dropLast_concat] at h
    obtain ⟨directory, hdirectory, rfl⟩ := Except.map_eq_ok.mp h
    exact .inr ⟨init, name, directory, hparts, hdirectory, rfl⟩

/-- A path that can be walked leads where it spells. -/
theorem target_location {path : String} {target : Target} (h : fs.target path = .ok target) :
    target.location = fs.destination path := by
  unfold destination FilePath.names
  cases fs.target_cases h with
  | inl hroot =>
    obtain ⟨hnil, habs, rfl⟩ := hroot
    rw [hnil, start, habs]
    rfl
  | inr hlast =>
    obtain ⟨init, name, directory, hparts, hdirectory, rfl⟩ := hlast
    rw [hparts, List.filter_append, List.foldl_append, ← fs.foldlM_enter_ok hdirectory]
    unfold Target.location
    dsimp only
    by_cases hdot : name = "."
    · simp [hdot]
    · by_cases hup : name = ".."
      · simp [hup, step]
      · simp [hdot, hup, step]

theorem target_name {path : String} {target : Target} (h : fs.target path = .ok target) :
    target.name = (slashParts path).getLast?.getD "." := by
  cases fs.target_cases h with
  | inl hroot =>
    obtain ⟨hnil, -, rfl⟩ := hroot
    rw [hnil]
    rfl
  | inr hlast =>
    obtain ⟨init, name, directory, hparts, -, rfl⟩ := hlast
    rw [hparts, List.getLast?_concat]
    rfl

end FileSystem

end TestMatrix
