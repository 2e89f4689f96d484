import TestMatrix.Proofs.Parts
import TestMatrix.Proofs.Tabulation

/-!
# What tokens resolve to

A definition is stored under any name, and its mappings have any keys. A token names it by a text that is
divided at slashes, and whose empty parts are dropped. So it is found by its own name and the keys below it
as long as these are steps. All others are told apart from steps by some schema.
-/

namespace TestMatrix

namespace ReferenceToken

theorem parse?_values (target : String) : parse? ("@" ++ target) = some (.values target) := by simp [parse?]

theorem parse?_keys (target : String) : parse? ("#@" ++ target) = some (.keys target) := by simp [parse?]

end ReferenceToken

/-! ## Chains of keys -/

/-- A chain of keys leads from a value to one within. -/
inductive Json.Leads : Json → List String → Json → Prop
  | here (value : Json) : Leads value [] value
  | down {fields : Fields} {key : String} {child : Json} {keys : List String} {target : Json} :
    fields.lookup key = some child → Leads child keys target → Leads (.obj fields) (key :: keys) target

namespace References

variable {references : References}

theorem descend_eq_some {keys : List String} {value target : Json} :
    descend value keys = some target ↔ value.Leads keys target := by
  induction keys generalizing value with
  | nil =>
    rw [descend, Option.some_inj]
    constructor
    · rintro rfl; exact .here value
    · intro h; cases h; rfl
  | cons key keys ih =>
    constructor
    · intro h
      cases value with
      | obj fields =>
        obtain ⟨child, hchild, htarget⟩ := Option.bind_eq_some_iff.mp h
        exact .down hchild (ih.mp htarget)
      | _ => cases h
    · intro h
      cases h with
      | down hchild htarget => exact Option.bind_eq_some_iff.mpr ⟨_, hchild, ih.mpr htarget⟩

theorem find?_eq_some {target : String} {result : Json} : references.find? target = some result ↔
    ∃ name keys value, slashParts target = name :: keys ∧ references.lookup name = some value ∧
      value.Leads keys result := by
  unfold find?
  cases hparts : slashParts target with
  | nil => simp
  | cons name keys => simp [Option.bind_eq_some_iff, descend_eq_some]

theorem resolve_values {target : String} {result : Json} :
    (ReferenceToken.parse? ("@" ++ target)).map references.resolve = some (.ok result) ↔
      references.find? target = some result := by
  rw [ReferenceToken.parse?_values, Option.map_some, Option.some_inj]
  simp only [resolve, ReferenceToken.target]
  cases references.find? target <;> simp

theorem resolve_keys {target : String} {result : Json} :
    (ReferenceToken.parse? ("#@" ++ target)).map references.resolve = some (.ok result) ↔
      ∃ fields, references.find? target = some (.obj fields) ∧ result = .arr ((Fields.keys fields).map .str) := by
  rw [ReferenceToken.parse?_keys, Option.map_some, Option.some_inj]
  simp only [resolve, ReferenceToken.target]
  cases references.find? target with
  | none => simp
  | some value => cases value <;> simp [eq_comm]

end References

namespace Schema

open Declaration

/-- Of the texts that are joined to a target, the first part is the name and all others are keys. -/
theorem find?_joined {document : Json} {schema : Schema} (hcompile : compile document = .ok schema)
    {parts : List String} {target : Json} :
    schema.references.find? (String.intercalate "/" parts) = some target ↔ ∃ name keys value,
      parts.flatMap slashParts = name :: keys ∧ lastDefinition? document name = some value ∧
        value.Leads keys target := by
  simp only [References.find?_eq_some, slashParts_intercalate, (tablesOf hcompile).named]

/-! ## A schema of one definition -/

section
variable (name : String) (value : Json)

def defining : Json := .obj [("#" ++ name, value)]

theorem definedName?_hash : definedName? ("#" ++ name) = some name := definedName?_eq_some.mpr (by simp)

theorem outline_defining : outline .root (defining name value) =
    [(.root, .node (defining name value)), (.root, .key ("#" ++ name) value)] := by
  have hslash : ¬ beginsWithSlash ("#" ++ name) = true := by simp [beginsWithSlash]
  rw [defining, outline, outlineFields, if_neg hslash]
  rfl

theorem entries_defining : entries (defining name value) = [⟨.root, "#" ++ name, value⟩] := by
  rw [entries, outline_defining]
  rfl

theorem lastDefinition?_defining (other : String) :
    lastDefinition? (defining name value) other = if name = other then some value else none := by
  have hdefinitions : definitions (defining name value) = [(name, value)] := by
    rw [definitions, entries_defining]
    simp [definedName?_hash]
  rw [lastDefinition?, hdefinitions]
  by_cases h : name = other <;> simp [h]

theorem wellFormed_defining : WellFormed (defining name value) where
  nodes := by
    have hnodes : nodes (defining name value) = [(.root, defining name value)] := by
      rw [nodes, outline_defining]
      rfl
    rw [hnodes, List.forall_mem_singleton]
    exact ⟨_, rfl⟩
  keys := by
    rw [entries_defining, List.forall_mem_singleton]
    exact ⟨_, .reference value (definedName?_hash name)⟩
  expectations := by
    rw [entries_defining, List.forall_mem_singleton, ofName?_of_defined (definedName?_hash name)]
    nofun
  leaves := by
    rintro path ⟨entry, hmem, -, hmarker⟩
    rw [entries_defining, List.mem_singleton] at hmem
    have hname := definedName?_of_marker _ hmarker
    rw [hmem, definedName?_hash] at hname
    cases hname

end

/-- Mappings of one key each, one within the other. -/
def nested (keys : List String) : Json := keys.foldr (fun key value => .obj [(key, value)]) .null

theorem nested_leads {keys parts : List String} : (nested keys).Leads parts .null ↔ parts = keys := by
  induction keys generalizing parts with
  | nil =>
    constructor
    · intro h; cases h; rfl
    · rintro rfl; exact .here _
  | cons key keys ih =>
    constructor
    · intro h
      cases h with
      | @down _ other child rest _ hchild htarget =>
        rw [lookup_cons_ite] at hchild
        by_cases hkey : other = key
        · rw [if_pos hkey] at hchild
          cases hchild
          rw [hkey, ih.mp htarget]
        · rw [if_neg hkey] at hchild
          cases hchild
    · rintro rfl
      exact .down List.lookup_cons_self (ih.mpr rfl)

/-- **Definitions are usable** under a name and keys that are steps, in every schema that has the definition
and the keys below it: as values, and if these are a mapping, as the list of its keys. Under no other name and
keys they are in every schema. -/
theorem usable_iff_steps (name : String) (keys : List String) :
    (∀ document schema value target, compile document = .ok schema → lastDefinition? document name = some value →
      value.Leads keys target →
        (ReferenceToken.parse? ("@" ++ String.intercalate "/" (name :: keys))).map schema.references.resolve =
          some (.ok target) ∧
        ∀ fields, target = .obj fields →
          (ReferenceToken.parse? ("#@" ++ String.intercalate "/" (name :: keys))).map schema.references.resolve =
            some (.ok (.arr ((Fields.keys fields).map .str)))) ↔
      ∀ part ∈ name :: keys, IsStep part := by
  rw [← flatMap_slashParts_eq_self]
  constructor
  · intro h
    -- a definition of this name with these keys, and nothing else
    obtain ⟨schema, hcompile⟩ := isOk_iff_wellFormed.mpr (wellFormed_defining name (nested keys))
    have hlast : lastDefinition? (defining name (nested keys)) name = some (nested keys) := by
      rw [lastDefinition?_defining, if_pos rfl]
    obtain ⟨hresolve, -⟩ := h _ schema _ .null hcompile hlast (nested_leads.mpr rfl)
    obtain ⟨first, rest, value, hparts, hfirst, hleads⟩ :=
      (find?_joined hcompile).mp (References.resolve_values.mp hresolve)
    rw [lastDefinition?_defining] at hfirst
    by_cases hname : name = first
    · rw [if_pos hname] at hfirst
      cases hfirst
      rw [hparts, hname, nested_leads.mp hleads]
    · rw [if_neg hname] at hfirst
      cases hfirst
  · intro hparts document schema value target hcompile hlast hleads
    have hfind := (find?_joined hcompile).mpr ⟨name, keys, value, hparts, hlast, hleads⟩
    refine ⟨References.resolve_values.mpr hfind, fun fields htarget => References.resolve_keys.mpr ⟨fields, ?_, rfl⟩⟩
    rw [hfind, htarget]

/-- A name with a slash is looked for under its first part. -/
theorem slashed_name_not_resolved : ∃ schema, compile (.obj [("#a/b", .arr [.str "x"])]) = .ok schema ∧
    lastDefinition? (.obj [("#a/b", .arr [.str "x"])]) "a/b" = some (.arr [.str "x"]) ∧
    (ReferenceToken.parse? "@a/b").map schema.references.resolve = some (.error (.invalidReference "a/b")) :=
  ⟨_, rfl, rfl, rfl⟩

end Schema

end TestMatrix
