import TestMatrix.Proofs.Demands
import TestMatrix.Proofs.Search
import TestMatrix.Proofs.Tabulation

/-!
# What can be looked up

The tables of a schema are filled at the paths that its keys spell, and asked at generalized paths.
The two meet except where a key has a part of digits only: no generalized path has such a part, so
what stands there is never found.
-/

namespace TestMatrix

/-! ## Generalized paths -/

namespace Segment

/-- A key that is folded into the wildcard. -/
def isNumericKey : Segment → Bool
  | .key name _ => isNumeric name
  | _ => false

def isIndex : Segment → Bool
  | .index _ => true
  | _ => false

theorem generalize_generalize (segment : Segment) : segment.generalize.generalize = segment.generalize := by
  cases segment with
  | key name h =>
    by_cases hnumeric : isNumeric name = true
    · rw [generalize, if_pos hnumeric]; rfl
    · rw [generalize, if_neg hnumeric, generalize, if_neg hnumeric]
  | _ => rfl

theorem generalize_eq_self {segment : Segment} :
    segment.generalize = segment ↔ segment.isNumericKey = false ∧ segment.isIndex = false := by
  cases segment with
  | key name h => by_cases hnumeric : isNumeric name = true <;> simp [generalize, isNumericKey, isIndex, hnumeric]
  | _ => simp [generalize, isNumericKey, isIndex]

theorem isIndex_ofKey (name : String) : (ofKey name).isIndex = false := by
  unfold ofKey
  split <;> rfl

end Segment

namespace TreePath

theorem generalize_generalize (path : TreePath) : path.generalize.generalize = path.generalize := by
  unfold generalize
  rw [List.map_map]
  exact List.map_congr_left fun segment _ => segment.generalize_generalize

theorem exists_generalize_eq {path : TreePath} :
    (∃ place : TreePath, place.generalize = path) ↔ path.generalize = path := by
  constructor
  · rintro ⟨place, rfl⟩
    exact generalize_generalize place
  · intro h
    exact ⟨path, h⟩

theorem generalize_eq_self {path : TreePath} :
    path.generalize = path ↔ ∀ segment ∈ path, segment.isNumericKey = false ∧ segment.isIndex = false := by
  simp only [← Segment.generalize_eq_self]
  have hmap := @List.map_inj_left _ _ path Segment.generalize id
  rwa [List.map_id] at hmap

end TreePath

/-! ## The paths of a schema -/

namespace Declaration

theorem no_index_outlineFields {path : TreePath} (hpath : ∀ segment ∈ path, segment.isIndex = false)
    (fields : List (String × Json))
    (h : ∀ entry ∈ fields, ∀ path : TreePath, (∀ segment ∈ path, segment.isIndex = false) →
      ∀ line ∈ outline path entry.2, ∀ segment ∈ line.1, segment.isIndex = false) :
    ∀ line ∈ outlineFields path fields, ∀ segment ∈ line.1, segment.isIndex = false := by
  induction fields with
  | nil =>
    rw [outlineFields]
    exact fun _ hmem => absurd hmem List.not_mem_nil
  | cons entry rest ih =>
    obtain ⟨key, value⟩ := entry
    obtain ⟨hvalue, hrest⟩ := List.forall_mem_cons.mp h
    rw [outlineFields, List.forall_mem_append]
    refine ⟨?_, ih hrest⟩
    by_cases hslash : beginsWithSlash key = true
    · rw [if_pos hslash]
      apply hvalue
      rw [List.forall_mem_append]
      refine ⟨hpath, fun segment hmem => ?_⟩
      obtain ⟨part, -, rfl⟩ := List.mem_map.mp hmem
      exact Segment.isIndex_ofKey part
    · rw [if_neg hslash]
      intro line hmem
      cases List.mem_singleton.mp hmem
      exact hpath

/-- A schema document has no list positions in its paths. -/
theorem no_index_outline (node : Json) : ∀ path : TreePath, (∀ segment ∈ path, segment.isIndex = false) →
    ∀ line ∈ outline path node, ∀ segment ∈ line.1, segment.isIndex = false := by
  induction node using Json.children_induction with
  | step node ih =>
    intro path hpath
    cases node with
    | obj fields =>
      rw [outline, List.forall_mem_cons]
      refine ⟨hpath, no_index_outlineFields hpath fields fun entry hmem => ?_⟩
      exact ih _ entry.2 (Json.field_mem_children hmem)
    | _ =>
      intro line hmem
      cases List.mem_singleton.mp hmem
      exact hpath

end Declaration

namespace Schema

section
variable {document : Json} {schema : Schema} (hcompile : compile document = .ok schema)
include hcompile

theorem exists_node {path : TreePath}
    (h : schema.rules.contains path = true ∨ schema.leaves.contains path = true) :
    ∃ node ∈ nodes document, path <+: node.1 := by
  have hrules : schema.rules.contains path = true := h.elim id (closed_of_compile hcompile).leaves
  exact ((tablesOf hcompile).described path).mp hrules

theorem generalize_eq_self_iff {path : TreePath}
    (h : schema.rules.contains path = true ∨ schema.leaves.contains path = true) :
    path.generalize = path ↔ ∀ segment ∈ path, segment.isNumericKey = false := by
  obtain ⟨⟨place, value⟩, hnode, hbelow⟩ := exists_node hcompile h
  have hroot : ∀ segment ∈ TreePath.root, segment.isIndex = false := fun _ hmem => nomatch hmem
  have hindex := Declaration.no_index_outline document .root hroot _ (mem_nodes.mp hnode)
  rw [TreePath.generalize_eq_self]
  refine forall₂_congr fun segment hmem => ?_
  exact and_iff_left (hindex segment (hbelow.subset hmem))

theorem all_generalized_iff :
    (∀ path, schema.rules.contains path = true ∨ schema.leaves.contains path = true → path.generalize = path) ↔
      ∀ node ∈ nodes document, ∀ segment ∈ node.1, segment.isNumericKey = false := by
  constructor
  · intro h node hnode
    have hrules : schema.rules.contains node.1 = true :=
      ((tablesOf hcompile).described node.1).mpr ⟨node, hnode, List.prefix_rfl⟩
    exact (generalize_eq_self_iff hcompile (Or.inl hrules)).mp (h node.1 (Or.inl hrules))
  · intro h path hpath
    obtain ⟨node, hnode, hbelow⟩ := exists_node hcompile hpath
    exact (generalize_eq_self_iff hcompile hpath).mpr fun segment hmem => h node hnode segment (hbelow.subset hmem)

end

end Schema

/-! ## Entries that are never found

The validator asks for rules at generalized paths only, and the search for patterns for leaves. -/

namespace Validate

section
variable {s t : Schema} (h : ∀ path : TreePath, s.rules.get? path.generalize = t.rules.get? path.generalize)
include h

theorem demands_congr (path : TreePath) (value : Json) : demands s path value = demands t path value := by
  have hrules : rulesAt s = rulesAt t := by
    funext path
    rw [rulesAt, rulesAt, h]
  have henters : enters s = enters t := by
    funext path segment child
    simp only [enters, isPassedOver, Table.contains, hrules, h]
  have hdemands : demandsOn s = demandsOn t := by
    funext node
    rw [demandsOn, demandsOn, hrules]
  rw [demands, demands, henters, hdemands]

theorem violation?_congr (isFile : String → Bool) (demand : Demand) :
    demand.violation? s isFile = demand.violation? t isFile := by
  obtain ⟨path, value, rule⟩ := demand
  cases rule with
  | none =>
    have hcontains : s.rules.contains path.generalize = t.rules.contains path.generalize := by
      rw [Table.contains, Table.contains, h]
    dsimp only [Demand.violation?]
    rw [hcontains]
  | some rule => rfl

theorem meet_congr (isFile : String → Bool) (list : List Demand) :
    ∀ diagnosis, meet s isFile diagnosis list = meet t isFile diagnosis list := by
  induction list with
  | nil => exact fun _ => rfl
  | cons demand rest ih =>
    intro diagnosis
    rw [meet, meet, violation?_congr h]
    simp only [ih]

theorem run_congr (isFile : String → Bool) (before : Diagnosis) (spec : Json) :
    run s isFile before spec = run t isFile before spec := by
  unfold run
  rw [visit_eq_meet, visit_eq_meet, demands_congr h, meet_congr h]

end

end Validate

namespace Pattern

theorem ofNode_congr {s t : Schema} (hdomains : s.domains = t.domains)
    (h : ∀ path : TreePath, s.leaves.contains path.generalize = t.leaves.contains path.generalize) (value : Json) :
    ∀ (path : TreePath) (ancestors : List Fields), ofNode s path ancestors value = ofNode t path ancestors value := by
  induction value using Json.children_induction with
  | step value ih =>
    intro path ancestors
    cases hleaf : t.leaves.contains path.generalize with
    | true =>
      cases value with
      | obj fields => simp only [ofNode, h, hleaf, if_true, dimensionsOf, hdomains]
      | _ => simp only [ofNode, h, hleaf, if_true]
    | false =>
      rw [ofNode_eq_of_not_leaf hleaf, ofNode_eq_of_not_leaf ((h path).trans hleaf)]
      refine congrArg _ (Except.mapM_congr_mem fun entry hmem => ?_)
      exact ih entry.1 entry.2 hmem _ _

end Pattern

/-- The entries at generalized paths. -/
def Table.generalized {α : Type} (table : Table α) : Table α :=
  ⟨table.entries.filter fun entry => decide (entry.1.generalize = entry.1)⟩

theorem Table.get?_generalized {α : Type} (table : Table α) (path : TreePath) :
    table.generalized.get? path.generalize = table.get? path.generalize :=
  lookup_filter (p := fun path => decide (TreePath.generalize path = path))
    (decide_eq_true path.generalize_generalize) table.entries

namespace Schema

/-- A schema without the rules and leaves that stand at other paths. -/
def reachable (schema : Schema) : Schema :=
  { schema with rules := schema.rules.generalized, leaves := schema.leaves.generalized }

/-- What stands at a path that is not generalized checks nothing and makes no pattern. -/
theorem reachable_suffices (schema : Schema) (spec : Json) :
    (∀ isFile before, Validate.run schema.reachable isFile before spec = Validate.run schema isFile before spec) ∧
      Pattern.ofSpec schema.reachable spec = Pattern.ofSpec schema spec := by
  constructor
  · intro isFile before
    exact Validate.run_congr (fun path => schema.rules.get?_generalized path) isFile before spec
  · have hleaves (path : TreePath) :
        schema.reachable.leaves.contains path.generalize = schema.leaves.contains path.generalize := by
      rw [Table.contains, Table.contains, reachable, Table.get?_generalized]
    exact Pattern.ofNode_congr (s := schema.reachable) (t := schema) rfl hleaves spec .root []

/-- **Lookups.** A path of a table is generalized exactly when no key of it consists of digits, and only
then is it found; so all paths of a schema are found exactly when no node of its document stands below
such a key. Without what is not found the schema checks and selects the same. -/
theorem found_iff_no_numeric_key {document : Json} {schema : Schema} (hcompile : compile document = .ok schema) :
    (∀ path, schema.rules.contains path = true ∨ schema.leaves.contains path = true →
      (path.generalize = path ↔ ∀ segment ∈ path, segment.isNumericKey = false) ∧
      (path.generalize = path ↔ ∃ place : TreePath, place.generalize = path)) ∧
    ((∀ path, schema.rules.contains path = true ∨ schema.leaves.contains path = true → path.generalize = path) ↔
      ∀ node ∈ nodes document, ∀ segment ∈ node.1, segment.isNumericKey = false) ∧
    ∀ spec, (∀ isFile before,
        Validate.run schema.reachable isFile before spec = Validate.run schema isFile before spec) ∧
      Pattern.ofSpec schema.reachable spec = Pattern.ofSpec schema spec :=
  ⟨fun _ hpath => ⟨generalize_eq_self_iff hcompile hpath, TreePath.exists_generalize_eq.symm⟩,
    all_generalized_iff hcompile, reachable_suffices schema⟩

/-- A document with an assertion at the items of a list, with what it compiles to. -/
def itemsDocument : Json := .obj [("/items/*", .obj [("has_keys", .arr [.str "x"])])]

def itemsSchema : Schema :=
  ⟨⟨[([], []), ([.ofKey "items"], []), ([.ofKey "items", .wildcard], [⟨.exactKeys ["x"], .arr [.str "x"]⟩])]⟩,
    [], ⟨[]⟩, ⟨[]⟩⟩

theorem items_paths_found : compile itemsDocument = .ok itemsSchema ∧
    ∀ path, itemsSchema.rules.contains path = true ∨ itemsSchema.leaves.contains path = true →
      path.generalize = path := by
  have hcompile : compile itemsDocument = .ok itemsSchema := rfl
  have hnodes : ∀ node ∈ nodes itemsDocument, ∀ segment ∈ node.1, segment.isNumericKey = false := by
    intro node hmem
    have hpath : node.1 ∈ (nodes itemsDocument).map Prod.fst := List.mem_map_of_mem hmem
    have hpaths : (nodes itemsDocument).map Prod.fst = [[], [.ofKey "items", .wildcard]] := rfl
    have hplain : ∀ path ∈ [[], [.ofKey "items", .wildcard]], ∀ segment ∈ path,
        Segment.isNumericKey segment = false := by decide
    exact hplain node.1 (hpaths ▸ hpath)
  exact ⟨hcompile, (found_iff_no_numeric_key hcompile).2.1.mpr hnodes⟩

/-- A document with an assertion at the key `0`, with what it compiles to. -/
def numberedDocument : Json := .obj [("/0", .obj [("has_keys", .arr [.str "x"])])]

def numberedSchema : Schema :=
  ⟨⟨[([], []), ([.ofKey "0"], [⟨.exactKeys ["x"], .arr [.str "x"]⟩])]⟩, [], ⟨[]⟩, ⟨[]⟩⟩

def numberedSpec : Json := .obj [("0", .obj [("x", .num (.int 1))])]

/-- The mapping under `0` has the key it should have, and is refused for want of an entry. -/
theorem numbered_rule_not_found : compile numberedDocument = .ok numberedSchema ∧
    (∃ path, numberedSchema.rules.contains path = true ∧ path.generalize ≠ path) ∧
    ∃ rejection, Validate.run numberedSchema (fun _ => false) .fresh numberedSpec = .error rejection ∧
      rejection.fault.violation = .noRule [.ofKey "0"] := by
  refine ⟨rfl, ⟨[.ofKey "0"], rfl, by decide⟩, ⟨_, rfl, rfl⟩⟩

end Schema

end TestMatrix
