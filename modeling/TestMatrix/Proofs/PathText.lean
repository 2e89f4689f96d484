import Mathlib.Data.List.Induction
import TestMatrix.Proofs.Lookups
import TestMatrix.Proofs.Parts

/-!
# Paths as texts

The text of a path has a slash before each segment, and to read a text is to divide it at its slashes and to
drop empty parts. What was read is therefore free of list positions and of keys that are empty or have a
slash. Main statement: these are exactly the paths that come back from their texts. A generalized
path has no positions any more, so as a key of a schema it stands for itself.
-/

namespace TestMatrix

namespace TreePath

/-- Whether no key of a path is empty or has a slash. -/
def KeysAreSteps (path : TreePath) : Prop := ∀ name h, Segment.key name h ∈ path → IsStep name

theorem parse_append (front back : String) : parse (front ++ "/" ++ back) = parse front ++ parse back := by
  unfold parse
  rw [slashParts_append, List.map_append]

theorem parse_of_isStep {part : String} (h : IsStep part) : parse part = [.ofKey part] := by
  unfold parse
  rw [slashParts_of_isStep h, List.map_singleton]

/-! ## What a text can hold -/

theorem no_index_parse (raw : String) (position : Nat) : Segment.index position ∉ parse raw := by
  intro hmem
  obtain ⟨part, -, hpart⟩ := List.mem_map.mp hmem
  have hindex := Segment.isIndex_ofKey part
  rw [hpart] at hindex
  cases hindex

theorem keysAreSteps_parse (raw : String) : (parse raw).KeysAreSteps := by
  intro name h hmem
  obtain ⟨part, hpart, hkey⟩ := List.mem_map.mp hmem
  rw [← Segment.ofKey_eq_key.mp hkey]
  exact isStep_of_mem_slashParts hpart

/-! ## Texts are read segment by segment -/

theorem parse_text (path : TreePath) : parse path.text = path.flatMap fun segment => parse segment.text := by
  have hroot : parse path.text =
      parse (String.ofList (path.flatMap fun segment => '/' :: segment.text.toList)) := by
    cases path <;> rfl
  rw [hroot]
  clear hroot
  -- the last segment stands behind the last slash that is written, so the path is taken apart from its end
  induction path using List.reverseRecOn with
  | nil => rfl
  | append_singleton path segment ih =>
    have htext : String.ofList ((path ++ [segment]).flatMap fun segment => '/' :: segment.text.toList) =
        String.ofList (path.flatMap fun segment => '/' :: segment.text.toList) ++ "/" ++ segment.text := by
      simp [← String.toList_inj]
    rw [htext, parse_append, ih, List.flatMap_append, List.flatMap_singleton]

theorem parse_text_eq_self {path : TreePath} :
    parse path.text = path ↔ (∀ position, Segment.index position ∉ path) ∧ path.KeysAreSteps := by
  constructor
  · intro h
    rw [← h]
    exact ⟨no_index_parse _, keysAreSteps_parse _⟩
  · rintro ⟨hindex, hkeys⟩
    have hsegment : ∀ segment ∈ path, parse segment.text = [segment] := by
      intro segment hmem
      cases segment with
      | key name h =>
        have hkey : Segment.ofKey name = .key name h := Segment.ofKey_eq_key.mpr rfl
        have hpart := parse_of_isStep (hkeys name h hmem)
        rwa [hkey] at hpart
      | index position => exact absurd hmem (hindex position)
      | wildcard => rfl
    rw [parse_text, List.flatMap_congr hsegment, List.flatMap_singleton']

/-! ## Generalized paths -/

theorem no_index_generalize (path : TreePath) (position : Nat) : Segment.index position ∉ path.generalize := by
  intro hmem
  have hself := generalize_eq_self.mp path.generalize_generalize _ hmem
  cases hself.2

theorem KeysAreSteps.generalize {path : TreePath} (h : path.KeysAreSteps) : path.generalize.KeysAreSteps := by
  intro name hname hmem
  obtain ⟨segment, hsegment, hkey⟩ := List.mem_map.mp hmem
  cases segment with
  | key other hother =>
    by_cases hnumeric : Segment.isNumeric other = true
    · rw [Segment.generalize, if_pos hnumeric] at hkey
      cases hkey
    · rw [Segment.generalize, if_neg hnumeric] at hkey
      cases hkey
      exact h name hname hsegment
  | _ => cases hkey

theorem parse_text_generalize {path : TreePath} (h : path.KeysAreSteps) :
    parse path.generalize.text = path.generalize :=
  parse_text_eq_self.mpr ⟨path.no_index_generalize, h.generalize⟩

end TreePath

namespace Schema

open Declaration

/-- An assertion or a leaf of the schema is found for a place of a specification. -/
def Addresses (schema : Schema) (place : TreePath) : Prop :=
  (∃ rules, schema.rules.get? place.generalize = some rules ∧ rules ≠ []) ∨
    schema.leaves.contains place.generalize = true

/-- An assertion or a marker is written at a path of the document. -/
def Prescribes (document : Json) (path : TreePath) : Prop :=
  ∃ entry ∈ entries document, entry.path = path ∧ definedName? entry.key = none

section
variable {document : Json} {schema : Schema} (hcompile : compile document = .ok schema)
include hcompile

theorem exists_rule_iff {path : TreePath} : (∃ rules, schema.rules.get? path = some rules ∧ rules ≠ []) ↔
    ∃ entry ∈ entries document, entry.path = path ∧ (AssertionKind.ofName? entry.key).isSome = true := by
  have htables := tablesOf hcompile
  constructor
  · intro h
    obtain ⟨rules, hrules, hne⟩ := h
    obtain ⟨rule, hrule⟩ := List.exists_mem_of_ne_nil rules hne
    obtain ⟨written, hwritten, -⟩ := exists_of_forall₂_right (htables.rules path rules hrules) hrule
    obtain ⟨entry, hentry, hkind⟩ := List.mem_filterMap.mp hwritten
    by_cases hpath : entry.path = path
    · rw [if_pos hpath] at hkind
      refine ⟨entry, hentry, hpath, ?_⟩
      rw [← Option.isSome_map, hkind]
      rfl
    · rw [if_neg hpath] at hkind
      cases hkind
  · intro h
    obtain ⟨entry, hentry, rfl, hkind⟩ := h
    obtain ⟨declarations, hread, -⟩ := compile_eq_ok.mp hcompile
    obtain ⟨node, hnode, hpath⟩ := (mem_node hread).mp (node_of_mem_entries hread hentry)
    obtain ⟨rules, hrules⟩ := Option.isSome_iff_exists.mp
      ((htables.described entry.path).mpr ⟨node, hnode, hpath ▸ List.prefix_rfl⟩)
    refine ⟨rules, hrules, ?_⟩
    rintro rfl
    have hnone := List.forall₂_nil_right_iff.mp (htables.rules entry.path [] hrules)
    obtain ⟨kind, hkind⟩ := Option.isSome_iff_exists.mp hkind
    have hwritten : (kind, entry.value) ∈ assertionsAt document entry.path := by
      refine List.mem_filterMap.mpr ⟨entry, hentry, ?_⟩
      rw [if_pos rfl, hkind]
      rfl
    rw [hnone] at hwritten
    cases hwritten

theorem addresses_iff {place : TreePath} : schema.Addresses place ↔ Prescribes document place.generalize := by
  have hkeys := (isOk_iff_wellFormed.mp ⟨schema, hcompile⟩).keys
  unfold Addresses Table.contains
  rw [exists_rule_iff hcompile, (tablesOf hcompile).marked]
  constructor
  · intro h
    rcases h with ⟨entry, hentry, hpath, hkind⟩ | ⟨entry, hentry, hpath, hmarker⟩
    · obtain ⟨content, hwritten⟩ := hkeys entry hentry
      exact ⟨entry, hentry, hpath, hwritten.definedName?_eq_none.mpr (Or.inl hkind)⟩
    · exact ⟨entry, hentry, hpath, definedName?_of_marker _ hmarker⟩
  · intro h
    obtain ⟨entry, hentry, hpath, hname⟩ := h
    obtain ⟨content, hwritten⟩ := hkeys entry hentry
    rcases hwritten.definedName?_eq_none.mp hname with hkind | hmarker
    · exact Or.inl ⟨entry, hentry, hpath, hkind⟩
    · exact Or.inr ⟨entry, hentry, hpath, hmarker⟩

end

/-! ## One key of a document -/

theorem outlineFields_append (path : TreePath) : ∀ first second : Fields,
    outlineFields path (first ++ second) = outlineFields path first ++ outlineFields path second
  | [], _ => rfl
  | (key, value) :: rest, second => by
    rw [List.cons_append, outlineFields, outlineFields, outlineFields_append path rest, List.append_assoc]

theorem outlineFields_of_no_slash (path : TreePath) : ∀ {fields : Fields},
    (∀ entry ∈ fields, beginsWithSlash entry.1 = false) →
      outlineFields path fields = fields.map fun entry => (path, .key entry.1 entry.2)
  | [], _ => rfl
  | (key, value) :: rest, h => by
    obtain ⟨hkey, hrest⟩ := List.forall_mem_cons.mp h
    rw [outlineFields, if_neg (Bool.eq_false_iff.mp hkey), outlineFields_of_no_slash path hrest]
    rfl

theorem entries_obj (fields : Fields) : entries (.obj fields) = (outlineFields .root fields).filterMap entryLine? := by
  rw [entries, outline, List.filterMap_cons_none rfl]

theorem prescribes_append {first second : Fields} {path : TreePath} :
    Prescribes (.obj (first ++ second)) path ↔ Prescribes (.obj first) path ∨ Prescribes (.obj second) path := by
  simp only [Prescribes, entries_obj, outlineFields_append, List.filterMap_append, List.mem_append, or_and_right,
    exists_or]

theorem entries_opening {key : String} {inside : Fields} (hkey : beginsWithSlash key = true)
    (hinside : ∀ entry ∈ inside, beginsWithSlash entry.1 = false) :
    entries (.obj [(key, .obj inside)]) = inside.map fun entry => ⟨TreePath.parse key, entry.1, entry.2⟩ := by
  rw [entries_obj, outlineFields, if_pos hkey, outlineFields, outline, outlineFields_of_no_slash _ hinside,
    List.append_nil, List.filterMap_cons_none rfl, List.filterMap_map]
  exact congrFun (List.filterMap_eq_map' (f := fun entry : String × Json => (⟨_, entry.1, entry.2⟩ : Entry))) inside

theorem prescribes_opening {key : String} {inside : Fields} (hkey : beginsWithSlash key = true)
    (hinside : ∀ entry ∈ inside, beginsWithSlash entry.1 = false) {path : TreePath} :
    Prescribes (.obj [(key, .obj inside)]) path ↔
      path = TreePath.parse key ∧ ∃ entry ∈ inside, definedName? entry.1 = none := by
  rw [Prescribes, entries_opening hkey hinside]
  constructor
  · intro h
    obtain ⟨entry, hentry, rfl, hname⟩ := h
    obtain ⟨field, hfield, rfl⟩ := List.mem_map.mp hentry
    exact ⟨rfl, field, hfield, hname⟩
  · intro h
    obtain ⟨rfl, field, hfield, hname⟩ := h
    exact ⟨_, List.mem_map_of_mem hfield, rfl, hname⟩

end Schema

namespace TreePath

open Schema Declaration

theorem beginsWithSlash_text (path : TreePath) : beginsWithSlash path.text = true := by
  cases path with
  | nil => rfl
  | cons segment rest => simp [beginsWithSlash, text]

/-- **Texts of paths.** What is read from a text is read again from its own text. A path comes back from its
text exactly when it has no list positions and its keys are neither empty nor have a slash. With such keys
the generalized path comes back in any case. Whatever else a schema document says, what it says under
that text is then found for the places that generalize to the path and for no others. -/
theorem read_back_from_text :
    (∀ raw, parse (parse raw).text = parse raw) ∧
    (∀ path : TreePath, parse path.text = path ↔ (∀ position, Segment.index position ∉ path) ∧ path.KeysAreSteps) ∧
    ∀ path : TreePath, path.KeysAreSteps → parse path.generalize.text = path.generalize ∧
      ∀ before inside after schema, (∀ entry ∈ inside, beginsWithSlash entry.1 = false) →
        compile (.obj (before ++ (path.generalize.text, .obj inside) :: after)) = .ok schema →
        ∀ place : TreePath, schema.Addresses place ↔
          (place.generalize = path.generalize ∧ ∃ entry ∈ inside, definedName? entry.1 = none) ∨
            Prescribes (.obj (before ++ after)) place.generalize := by
  refine ⟨fun raw => ?_, fun path => parse_text_eq_self, fun path hkeys => ⟨parse_text_generalize hkeys, ?_⟩⟩
  · exact parse_text_eq_self.mpr ⟨no_index_parse raw, keysAreSteps_parse raw⟩
  · intro before inside after schema hinside hcompile place
    have hopening := @prescribes_opening _ _ path.generalize.beginsWithSlash_text hinside place.generalize
    rw [parse_text_generalize hkeys] at hopening
    rw [addresses_iff hcompile, List.append_cons, prescribes_append, prescribes_append, prescribes_append, hopening]
    exact or_assoc.trans or_left_comm

/-- The item of a list, and a key of digits below it, are both reached by one text. -/
def numberedPlace : TreePath := [.ofKey "cases", .index 3, .ofKey "12"]

theorem numbered_place_addressed :
    numberedPlace.KeysAreSteps ∧ numberedPlace.generalize.text = "/cases/*/*" ∧
    ∃ schema, compile (.obj [("/suite", .obj []), ("/cases/*/*", .obj [("has_keys", .arr [.str "x"])])]) = .ok schema ∧
      schema.Addresses [.ofKey "cases", .ofKey "7", .index 0] ∧ ¬ schema.Addresses [.ofKey "cases", .index 0] := by
  have hkeys : numberedPlace.KeysAreSteps := by
    intro name h hmem
    simp only [numberedPlace, List.mem_cons, List.not_mem_nil, or_false, reduceCtorEq, false_or] at hmem
    rcases hmem with hname | hname
    all_goals
      rw [← Segment.ofKey_eq_key.mp hname.symm]
      exact ⟨by decide, by unfold IsPart; decide⟩
  have haddresses := (read_back_from_text.2.2 numberedPlace hkeys).2 [("/suite", .obj [])]
    [("has_keys", .arr [.str "x"])] [] _ (by decide) rfl
  refine ⟨hkeys, rfl, _, rfl, (haddresses _).mpr (Or.inl ⟨rfl, _, List.mem_singleton_self _, rfl⟩), fun h => ?_⟩
  rcases (haddresses _).mp h with ⟨hpath, -⟩ | ⟨entry, hentry, -⟩
  · have hlength := congrArg List.length hpath
    cases hlength
  · cases hentry

end TreePath

end TestMatrix
