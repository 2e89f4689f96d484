import TestMatrix.Files.Spelling
import TestMatrix.Platform
import TestMatrix.Proofs.Parts

/-!
# Where paths lead

The file system walks the text of a path, components leave out its idle parts. For a path that ends
in a component and is not too long the two agree: its components alone tell where it leads. A slash or
`.` at the end asks for a directory and is no component, so this fails for other paths.
-/

namespace TestMatrix

/-! ## Parts and components -/

namespace Spelling

/-- The part that a path begins with. -/
def leadPart : Option Lead → List String
  | none => []
  | some .root => [""]
  | some .here => ["."]

theorem pathParts_eq {path : String} (h : path ≠ "") :
    pathParts path = leadPart (ofText path).lead ++ (ofText path).body := by
  unfold pathParts ofText
  split
  next hnil => exact absurd (String.toList_eq_nil_iff.mp hnil) h
  next rest hroot => rw [hroot]; rfl
  next chars _ _ =>
    split
    next hhere => rw [hhere]; rfl
    next => rfl

theorem filter_leadPart (lead : Option Lead) : (leadPart lead).filter (fun part => !isIdle part) = [] := by
  cases lead with
  | none => rfl
  | some lead => cases lead <;> rfl

end Spelling

/-- The name that a component is walked by, if it has one. -/
def Component.entry? : Component → Option String
  | .root | .here => none
  | .up => some ".."
  | .name text => some text

/-- The names by which a path is walked. -/
def walkedNames (components : List Component) : List String := components.filterMap Component.entry?

theorem walkedNames_components {path : String} (h : path ≠ "") :
    walkedNames (FilePath.components path) = (pathParts path).filter fun part => !Spelling.isIdle part := by
  have hmap (parts : List String) :
      walkedNames (parts.map fun part => if part = ".." then .up else .name part) = parts := by
    induction parts with
    | nil => rfl
    | cons part rest ih =>
      unfold walkedNames at ih ⊢
      by_cases hup : part = ".." <;> simp [hup, ih, Component.entry?]
  rw [Spelling.pathParts_eq h, List.filter_append, Spelling.filter_leadPart, List.nil_append]
  unfold FilePath.components Spelling.components
  unfold walkedNames at hmap ⊢
  rw [List.filterMap_append, hmap]
  cases (Spelling.ofText path).lead with
  | none => rfl
  | some lead => cases lead <;> rfl

theorem lead_root (path : String) :
    (Spelling.ofText path).lead = some .root ↔ path.toList.head? = some '/' := by
  unfold Spelling.ofText
  split
  next hnil => simp [hnil]
  next rest hroot => simp [hroot]
  next chars hnil hroot =>
    have hhead : path.toList.head? ≠ some '/' := by
      intro h
      obtain ⟨rest, hrest⟩ := List.head?_eq_some_iff.mp h
      exact hroot rest hrest
    split <;> simp [hhead]

theorem head_components (path : String) :
    (FilePath.components path).head? = some .root ↔ path.toList.head? = some '/' := by
  rw [← lead_root]
  unfold FilePath.components Spelling.components
  cases (Spelling.ofText path).lead with
  | none =>
    cases (Spelling.ofText path).body.filter fun part => !Spelling.isIdle part with
    | nil => simp
    | cons part rest => by_cases h : part = ".." <;> simp [h]
  | some lead => cases lead <;> simp

theorem nul_walkedNames {path : String} (h : path ≠ "") : path.toList.contains '\x00' =
    (walkedNames (FilePath.components path)).any fun name => name.toList.contains '\x00' := by
  rw [walkedNames_components h, Bool.eq_iff_iff, List.contains_iff_mem, List.any_eq_true, mem_splitSlash (by decide)]
  constructor
  · rintro ⟨part, hpart, hmem⟩
    have hidle : Spelling.isIdle (String.ofList part) = false := by
      have hempty : String.ofList part ≠ "" := by
        intro h
        have hnil : part = [] := by rw [← String.toList_ofList (l := part), h]; rfl
        rw [hnil] at hmem; cases hmem
      have hdot : String.ofList part ≠ "." := by
        intro h
        have hone : part = ['.'] := by rw [← String.toList_ofList (l := part), h]; rfl
        rw [hone] at hmem; cases List.mem_singleton.mp hmem
      simp [Spelling.isIdle, hempty, hdot]
    refine ⟨String.ofList part, List.mem_filter.mpr ⟨List.mem_map.mpr ⟨part, hpart, rfl⟩, ?_⟩, ?_⟩
    · rw [hidle]; rfl
    · rw [String.toList_ofList]; exact List.contains_iff_mem.mpr hmem
  · rintro ⟨name, hname, hmem⟩
    obtain ⟨part, hpart, rfl⟩ := List.mem_map.mp (List.mem_filter.mp hname).1
    rw [String.toList_ofList] at hmem
    exact ⟨part, hpart, List.contains_iff_mem.mp hmem⟩

theorem last_slash {path : String} (h : path.toList.getLast? = some '/') : (pathParts path).getLast? = some "" := by
  obtain ⟨front, hfront⟩ := List.getLast?_eq_some_iff.mp h
  unfold pathParts
  rw [hfront, splitSlash_append, List.map_append]
  simp [splitSlash]

/-! ## Where a path leads -/

/-- Whether a path ends in a component and is short enough to be walked. -/
structure IsDefinite (path : String) : Prop where
  last : ∃ init part, (Spelling.ofText path).body = init ++ [part] ∧ Spelling.isIdle part = false
  short : path.utf8ByteSize ≤ FileSystem.pathLimit

namespace FileSystem

variable (fs : FileSystem)

/-- Where components lead. -/
def follow (components : List Component) : Except FileError Target :=
  let names := walkedNames components
  if names.any fun name => name.toList.contains '\x00' then .error .badPath
  else
    let start := if components.head? = some .root then [] else fs.workingDirectory
    match names.getLast? with
    | none => .error .notFound
    | some name => (names.dropLast.foldlM fs.enter start).map fun directory => ⟨directory, name, false⟩

theorem foldlM_enter (names : List String) (start : Location) :
    (names.filter (· ≠ ".")).foldlM fs.enter start = names.foldlM fs.enter start := by
  induction names generalizing start with
  | nil => rfl
  | cons name rest ih =>
    by_cases h : name = "."
    · -- this name stays in its directory
      have hstay : fs.enter start "." = .ok start := rfl
      rw [List.filter_cons_of_neg (by simpa using h), ih, List.foldlM_cons, h, hstay]
      rfl
    · rw [List.filter_cons_of_pos (by simpa using h), List.foldlM_cons, List.foldlM_cons]
      exact congrArg (fs.enter start name >>= ·) (funext fun next => ih next)

theorem target_eq_follow {path : String} (h : IsDefinite path) :
    fs.target path = fs.follow (FilePath.components path) := by
  obtain ⟨init, part, hbody, hpart⟩ := h.last
  have hne : path ≠ "" := by
    rintro rfl
    have hnil : (Spelling.ofText "").body = [] := rfl
    rw [hnil] at hbody
    simp at hbody
  obtain ⟨front, hparts⟩ : ∃ front, pathParts path = front ++ [part] :=
    ⟨Spelling.leadPart (Spelling.ofText path).lead ++ init, by
      rw [Spelling.pathParts_eq hne, hbody, List.append_assoc]⟩
  have hempty : part ≠ "" := by rintro rfl; cases hpart
  have hslash : path.toList.getLast? ≠ some '/' := by
    intro hlast
    have := last_slash hlast
    rw [hparts, List.getLast?_concat] at this
    exact hempty (Option.some.inj this)
  have hnames : slashParts path = front.filter (· ≠ "") ++ [part] := by
    rw [slashParts_eq, hparts, List.filter_append]
    simp [hempty]
  -- beside the last part, components leave out what walking passes over
  have hwalked : walkedNames (FilePath.components path) =
      (front.filter (· ≠ "")).filter (· ≠ ".") ++ [part] := by
    have hidle (name : String) : (!Spelling.isIdle name) = (decide (name ≠ ".") && decide (name ≠ "")) := by
      by_cases hname : name = "" <;> by_cases hname' : name = "." <;> simp [Spelling.isIdle, hname, hname']
    have hkept : [part].filter (fun part => !Spelling.isIdle part) = [part] := by simp [hpart]
    rw [walkedNames_components hne, hparts, List.filter_append, hkept, List.filter_filter]
    exact congrArg (· ++ [part]) (List.filter_congr fun name _ => hidle name)
  have hshort : ¬ pathLimit < path.utf8ByteSize := Nat.not_lt.mpr h.short
  have hnonempty : ¬ path.isEmpty = true := by rw [String.isEmpty_iff]; exact hne
  have hstart : (if (path.toList.head? == some '/') = true then [] else fs.workingDirectory) =
      if (FilePath.components path).head? = some .root then [] else fs.workingDirectory := by
    simp only [beq_iff_eq, ← head_components]
  unfold target follow
  dsimp only
  rw [nul_walkedNames hne, hnames, hwalked, if_neg hnonempty, if_neg hshort, hstart, beq_false_of_ne hslash,
    List.getLast?_concat, List.getLast?_concat]
  dsimp only
  rw [List.dropLast_concat, List.dropLast_concat, foldlM_enter]

theorem text_eq_of_components {p q : String} (hp : IsDefinite p) (hq : IsDefinite q)
    (h : FilePath.components p = FilePath.components q) : fs.text? p = fs.text? q := by
  unfold text? locate
  rw [fs.target_eq_follow hp, fs.target_eq_follow hq, h]

end FileSystem

end TestMatrix
