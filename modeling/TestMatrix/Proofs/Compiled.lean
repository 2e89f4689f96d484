import TestMatrix.Proofs.Nodes
import TestMatrix.Proofs.Outcomes
import TestMatrix.Proofs.Tables
import TestMatrix.Schema.Compile

/-!
# Tables of a compiled schema

A schema is flattened into declarations, and its tables are read off that list. Here are the paths
that the tables hold, said in terms of the declarations, and what follows for every compiled schema:
with a path it describes all paths above it, and it describes the paths of its leaves.
-/

namespace TestMatrix

/-! ## Declarations stand at nodes -/

namespace Declaration

def ofEntry (path : TreePath) (entry : String × Json) : Except Fault (List Declaration) :=
  if beginsWithSlash entry.1 then ofNode (path ++ TreePath.parse entry.1) entry.2
  else ((contentOf path entry.1 entry.2).mapError Fault.schema).map fun content => [⟨path, content⟩]

theorem ofFields_cons (path : TreePath) (entry : String × Json) (rest : Fields) :
    ofFields path (entry :: rest) = (ofEntry path entry >>= fun here => ofFields path rest >>= fun there =>
      pure (here ++ there)) := by
  rw [ofFields, ofEntry]
  split <;> rfl

theorem ofFields_eq_ok (path : TreePath) : ∀ (fields : List (String × Json)) {found : List Declaration},
    ofFields path fields = .ok found ↔
      ∃ parts, List.Forall₂ (fun entry part => ofEntry path entry = .ok part) fields parts ∧
        found = parts.flatten
  | [], found => by
    rw [ofFields]
    constructor
    · intro h; cases h; exact ⟨[], .nil, rfl⟩
    · rintro ⟨parts, hparts, rfl⟩; cases hparts; rfl
  | entry :: rest, found => by
    simp only [ofFields_cons, Except.bind_eq_ok, ofFields_eq_ok path rest, List.forall₂_cons_left_iff]
    constructor
    · rintro ⟨here, hhere, there, ⟨parts, hparts, rfl⟩, h⟩
      cases h
      exact ⟨here :: parts, ⟨here, parts, hhere, hparts, rfl⟩, rfl⟩
    · rintro ⟨parts, ⟨here, rest', hhere, hrest, rfl⟩, rfl⟩
      exact ⟨here, hhere, rest'.flatten, ⟨rest', hrest, rfl⟩, rfl⟩

theorem ofNode_eq_ok {path : TreePath} {node : Json} {found : List Declaration} :
    ofNode path node = .ok found ↔
      ∃ fields inside, node = .obj fields ∧ ofFields path fields = .ok inside ∧
        found = ⟨path, .node⟩ :: inside := by
  cases node with
  | obj fields =>
    rw [ofNode, Except.bind_eq_ok]
    constructor
    · rintro ⟨inside, hinside, h⟩; cases h; exact ⟨fields, inside, rfl, hinside, rfl⟩
    · rintro ⟨_, inside, h, hinside, rfl⟩; cases h; exact ⟨inside, hinside, rfl⟩
  | _ => simp [ofNode]

/-- What is declared at or below a node stands at some node. -/
theorem node_of_mem_ofNode (node : Json) : ∀ {path : TreePath} {found : List Declaration},
    ofNode path node = .ok found → ∀ declaration ∈ found, ⟨declaration.path, .node⟩ ∈ found := by
  induction node using Json.children_induction with
  | step node ih =>
    intro path found h declaration hmem
    obtain ⟨fields, inside, rfl, hinside, rfl⟩ := ofNode_eq_ok.mp h
    obtain ⟨parts, hparts, rfl⟩ := (ofFields_eq_ok _ _).mp hinside
    rcases List.mem_cons.mp hmem with rfl | hmem
    · exact List.mem_cons_self ..
    · obtain ⟨part, hpart, hmem⟩ := List.mem_flatten.mp hmem
      obtain ⟨⟨key, value⟩, hentry, hfound⟩ := exists_of_forall₂_right hparts hpart
      unfold ofEntry at hfound
      split at hfound
      · have hbelow := ih (.ofKey key) value (List.mem_map.mpr ⟨_, hentry, rfl⟩) hfound declaration hmem
        exact List.mem_cons_of_mem _ (List.mem_flatten.mpr ⟨part, hpart, hbelow⟩)
      · obtain ⟨content, -, rfl⟩ := Except.map_eq_ok.mp hfound
        rw [List.mem_singleton.mp hmem]
        exact List.mem_cons_self ..

end Declaration

/-! ## The paths of the tables -/

def LeafRule.IsComplete (leaf : LeafRule) : Prop := leaf.path.isSome = true ∧ leaf.template.isSome = true

namespace Schema

theorem mem_pathsOf {declarations : List Declaration} {path : TreePath} :
    path ∈ pathsOf declarations ↔ ∃ below, ⟨below, .node⟩ ∈ declarations ∧ path <+: below := by
  unfold pathsOf
  rw [mem_sortedPaths, List.mem_flatMap]
  constructor
  · rintro ⟨⟨below, content⟩, hmem, hpath⟩
    cases content with
    | node => exact ⟨below, hmem, TreePath.mem_prefixes.mp hpath⟩
    | _ => cases hpath
  · rintro ⟨below, hmem, hpath⟩
    exact ⟨⟨below, .node⟩, hmem, TreePath.mem_prefixes.mpr hpath⟩

def addMarker (leaves : Table LeafRule) (declaration : Declaration) : Table LeafRule :=
  match declaration.content with
  | .marker marker =>
    leaves.insert declaration.path (marker.set ((leaves.get? declaration.path).getD LeafRule.empty))
  | _ => leaves

theorem leavesOf_eq (declarations : List Declaration) :
    leavesOf declarations = declarations.foldl addMarker Table.empty := rfl

theorem contains_addMarker {leaves : Table LeafRule} {declaration : Declaration} {path : TreePath} :
    (addMarker leaves declaration).contains path = true ↔
      (∃ marker, declaration = ⟨path, .marker marker⟩) ∨ leaves.contains path = true := by
  obtain ⟨place, content⟩ := declaration
  cases content with
  | marker marker =>
    rw [addMarker, Table.contains_insert]
    refine or_congr_left ⟨fun h => ⟨marker, by rw [h]⟩, ?_⟩
    rintro ⟨_, h⟩; cases h; rfl
  | _ => simp [addMarker]

theorem contains_foldl_addMarker {path : TreePath} : ∀ {declarations : List Declaration} {leaves : Table LeafRule},
    (declarations.foldl addMarker leaves).contains path = true ↔
      (∃ marker, ⟨path, .marker marker⟩ ∈ declarations) ∨ leaves.contains path = true
  | [], _ => by simp
  | declaration :: rest, leaves => by
    rw [List.foldl_cons, contains_foldl_addMarker, contains_addMarker, ← or_assoc]
    refine or_congr_left ?_
    simp only [List.mem_cons]
    constructor
    · rintro (⟨marker, h⟩ | ⟨marker, h⟩)
      · exact ⟨marker, Or.inr h⟩
      · exact ⟨marker, Or.inl h.symm⟩
    · rintro ⟨marker, h | h⟩
      · exact Or.inr ⟨marker, h.symm⟩
      · exact Or.inl ⟨marker, h⟩

theorem contains_leavesOf {declarations : List Declaration} {path : TreePath} :
    (leavesOf declarations).contains path = true ↔ ∃ marker, ⟨path, .marker marker⟩ ∈ declarations := by
  rw [leavesOf_eq, contains_foldl_addMarker]
  simp [Table.contains]

/-! ## Declarations that a table is not read from -/

section
variable (kept : Content → Bool) (declarations : List Declaration)

theorem referencesOf_filter (h : ∀ name value, kept (.reference name value) = true) :
    referencesOf (declarations.filter fun declaration => kept declaration.content) = referencesOf declarations := by
  unfold referencesOf
  rw [List.foldl_filter]
  congr 1
  funext references declaration
  cases declaration.content with
  | reference name value => rw [h, if_pos rfl]
  | _ => exact ite_self _

theorem pathsOf_filter (h : kept .node = true) :
    pathsOf (declarations.filter fun declaration => kept declaration.content) = pathsOf declarations := by
  apply sortedPaths_congr
  intro path
  simp only [List.mem_flatMap, List.mem_filter]
  constructor
  · intro hmem
    obtain ⟨declaration, ⟨hmem, -⟩, hpath⟩ := hmem
    exact ⟨declaration, hmem, hpath⟩
  · intro hmem
    obtain ⟨⟨place, content⟩, hmem, hpath⟩ := hmem
    cases content with
    | node => exact ⟨_, ⟨hmem, h⟩, hpath⟩
    | _ => cases hpath

theorem rulesAt_filter (h : ∀ kind expectation, kept (.assertion kind expectation) = true) (references : References)
    (path : TreePath) :
    rulesAt (declarations.filter fun declaration => kept declaration.content) references path =
      rulesAt declarations references path := by
  unfold rulesAt
  rw [List.filterMap_filter]
  congr 2
  funext declaration
  cases declaration.content with
  | assertion kind expectation => rw [h, if_pos rfl]
  | _ => exact ite_self _

theorem leavesOf_filter (h : ∀ marker, kept (.marker marker) = true) :
    leavesOf (declarations.filter fun declaration => kept declaration.content) = leavesOf declarations := by
  rw [leavesOf_eq, leavesOf_eq, List.foldl_filter]
  congr 1
  funext leaves declaration
  unfold addMarker
  cases declaration.content with
  | marker marker => rw [h, if_pos rfl]
  | _ => exact ite_self _

end

theorem ofDeclarations_eq_ok {declarations : List Declaration} {schema : Schema} :
    ofDeclarations declarations = .ok schema ↔
      List.Forall₂ (fun path entry => entry.1 = path ∧
          rulesAt declarations (referencesOf declarations) path = .ok entry.2)
        (pathsOf declarations) schema.rules.entries ∧
      (∀ entry ∈ (leavesOf declarations).entries, checkLeaf entry.1 entry.2 = .ok ()) ∧
      schema.references = referencesOf declarations ∧ schema.leaves = leavesOf declarations ∧
      schema.domains = domainsOf schema.rules.entries := by
  have hrules : ∀ path entry, (rulesAt declarations (referencesOf declarations) path).map
      (fun rules => (path, rules)) = .ok entry ↔
        entry.1 = path ∧ rulesAt declarations (referencesOf declarations) path = .ok entry.2 := by
    rintro path ⟨place, rules⟩
    rw [Except.map_eq_ok]
    constructor
    · rintro ⟨_, h, he⟩; cases he; exact ⟨rfl, h⟩
    · rintro ⟨rfl, h⟩; exact ⟨rules, h, rfl⟩
  simp only [ofDeclarations, Except.bind_eq_ok, Except.mapM_eq_ok, hrules]
  constructor
  · rintro ⟨rules, hforall, _, hleaves, h⟩
    cases h
    exact ⟨hforall, (Except.forM_eq_ok _ _).mp hleaves, rfl, rfl, rfl⟩
  · rintro ⟨hforall, hleaves, hrefs, hleaf, hdomains⟩
    refine ⟨schema.rules.entries, hforall, (), (Except.forM_eq_ok _ _).mpr hleaves, ?_⟩
    rw [← hrefs, ← hleaf, ← hdomains]
    rfl

theorem compile_eq_ok {document : Json} {schema : Schema} :
    compile document = .ok schema ↔
      ∃ declarations, Declaration.ofSchema document = .ok declarations ∧
        ofDeclarations declarations = .ok schema := by
  unfold compile
  rw [show ∀ x f, Except.bind x f = x >>= f from fun _ _ => rfl, Except.bind_eq_ok]
  simp only [Except.mapError_eq_ok]

theorem checkLeaf_ok {path : TreePath} {leaf : LeafRule} :
    checkLeaf path leaf = .ok () ↔ (leaf.action = .generate → leaf.IsComplete) := by
  obtain ⟨target, template, action, conditions, defaults⟩ := leaf
  cases action with
  | suppress => simp [checkLeaf]
  | generate =>
    cases target with
    | none => simp [checkLeaf, LeafRule.IsComplete]
    | some target => cases template <;> simp [checkLeaf, LeafRule.IsComplete]

/-- In a compiled schema the leaves that generate have a path and a template. -/
theorem complete_of_compile {document : Json} {schema : Schema} (h : compile document = .ok schema)
    {path : TreePath} {leaf : LeafRule} (hleaf : schema.leaves.get? path = some leaf)
    (hgenerates : leaf.action = .generate) : leaf.IsComplete := by
  obtain ⟨declarations, -, hschema⟩ := compile_eq_ok.mp h
  obtain ⟨-, hchecked, -, hleaves, -⟩ := ofDeclarations_eq_ok.mp hschema
  rw [hleaves] at hleaf
  have hcheck := hchecked (path, leaf) (mem_of_lookup hleaf)
  exact checkLeaf_ok.mp hcheck hgenerates

/-- What holds of the paths of every compiled schema. -/
structure Closed (schema : Schema) : Prop where
  root : schema.rules.contains .root = true
  above : ∀ {path below : TreePath}, path <+: below → schema.rules.contains below = true →
    schema.rules.contains path = true
  leaves : ∀ {path : TreePath}, schema.leaves.contains path = true → schema.rules.contains path = true

theorem contains_rules {declarations : List Declaration} {schema : Schema}
    (h : ofDeclarations declarations = .ok schema) {path : TreePath} :
    schema.rules.contains path = true ↔ ∃ below, ⟨below, .node⟩ ∈ declarations ∧ path <+: below := by
  have hpaths : schema.rules.entries.map Prod.fst = pathsOf declarations := by
    rw [← List.forall₂_eq_eq_eq, List.forall₂_map_left_iff]
    exact List.Forall₂.flip ((ofDeclarations_eq_ok.mp h).1.imp fun _ _ h => h.1)
  rw [Table.contains_iff_mem_keys, hpaths, mem_pathsOf]

theorem closed_of_compile {document : Json} {schema : Schema} (h : compile document = .ok schema) :
    schema.Closed := by
  obtain ⟨declarations, hdecl, hschema⟩ := compile_eq_ok.mp h
  refine ⟨?_, ?_, ?_⟩
  · obtain ⟨fields, inside, rfl, -, rfl⟩ := Declaration.ofNode_eq_ok.mp hdecl
    exact (contains_rules hschema).mpr ⟨[], List.mem_cons_self .., List.prefix_rfl⟩
  · intro path below hprefix hbelow
    obtain ⟨lowest, hmem, hlow⟩ := (contains_rules hschema).mp hbelow
    exact (contains_rules hschema).mpr ⟨lowest, hmem, hprefix.trans hlow⟩
  · intro path hleaf
    rw [(ofDeclarations_eq_ok.mp hschema).2.2.2.1, contains_leavesOf] at hleaf
    obtain ⟨marker, hmem⟩ := hleaf
    have hnode := Declaration.node_of_mem_ofNode _ hdecl _ hmem
    exact (contains_rules hschema).mpr ⟨path, hnode, List.prefix_rfl⟩

end Schema

end TestMatrix
