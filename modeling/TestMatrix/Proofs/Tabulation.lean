import TestMatrix.Proofs.Domains
import TestMatrix.Proofs.Outline

/-!
# From a document to its tables

A schema document gives each key that opens no node a path. Which documents compile, and what their
tables then hold, is said here in terms of these keys alone: the assertions at a path, the last
marker of each kind, the last definition of each name.
-/

namespace TestMatrix

namespace Schema

open Declaration

/-- A key that opens no node, at the path of the node it stands in. -/
structure Entry where
  path : TreePath
  key : String
  value : Json

def nodeLine? : TreePath × Line → Option (TreePath × Json)
  | (path, .node value) => some (path, value)
  | _ => none

def entryLine? : TreePath × Line → Option Entry
  | (path, .key name value) => some ⟨path, name, value⟩
  | _ => none

/-- The nodes of a document in document order. -/
def nodes (document : Json) : List (TreePath × Json) := (outline .root document).filterMap nodeLine?

/-- The keys of a document that open no node, in document order. -/
def entries (document : Json) : List Entry := (outline .root document).filterMap entryLine?

/-- The assertions at a path, with the expectations they are written with. -/
def assertionsAt (document : Json) (path : TreePath) : List (AssertionKind × Json) :=
  (entries document).filterMap fun entry =>
    if entry.path = path then (AssertionKind.ofName? entry.key).map fun kind => (kind, entry.value)
    else none

/-- The value of the last of a path's keys with this name. -/
def lastAt? (document : Json) (path : TreePath) (key : String) : Option Json :=
  ((entries document).filterMap fun entry =>
    if entry.path = path ∧ entry.key = key then some entry.value else none).getLast?

/-- All definitions of names, in document order. -/
def definitions (document : Json) : List (String × Json) :=
  (entries document).filterMap fun entry => (definedName? entry.key).map fun name => (name, entry.value)

/-- The value of the last definition of a name. -/
def lastDefinition? (document : Json) (name : String) : Option Json :=
  ((definitions document).filterMap fun entry => if entry.1 = name then some entry.2 else none).getLast?

/-- A path has a leaf when some marker stands at it. -/
def IsMarked (document : Json) (path : TreePath) : Prop :=
  ∃ entry ∈ entries document, entry.path = path ∧ entry.key ∈ markerNames

/-- What a document is that compiles. -/
structure WellFormed (document : Json) : Prop where
  nodes : ∀ node ∈ nodes document, ∃ fields, node.2 = .obj fields
  keys : ∀ entry ∈ entries document, ∃ content, Content.Written entry.key entry.value content
  expectations : ∀ entry ∈ entries document, ∀ kind, AssertionKind.ofName? entry.key = some kind →
    ∃ compiled, assertion (Fields.ofEntries (definitions document)) entry.path kind entry.value = .ok compiled
  leaves : ∀ path, IsMarked document path → lastAt? document path "action" ≠ some (.str "suppress") →
    (lastAt? document path "path").isSome = true ∧ (lastAt? document path "template").isSome = true

/-- The last marker of a kind at a path sets this value; without one there is none. -/
def LastMarker {α : Type} (document : Json) (path : TreePath) (key : String) (marker : α → Marker) :
    Option α → Prop :=
  Option.Rel (fun written value => Marker.Written key written (marker value)) (lastAt? document path key)

/-- A leaf has the attributes that the last markers at its path set, and the default for all others. -/
structure LeafOf (document : Json) (place : TreePath) (leaf : LeafRule) : Prop where
  path : LastMarker document place "path" .path leaf.path
  template : LastMarker document place "template" .template leaf.template
  action : ∃ own, LastMarker document place "action" .action own ∧ leaf.action = own.getD .generate
  conditions : ∃ own, LastMarker document place "when" .conditions own ∧ leaf.conditions = own.getD []
  defaults : ∃ own, LastMarker document place "defaults" .defaults own ∧ leaf.defaults = own.getD []

/-- What the tables of a document hold. -/
structure TablesOf (document : Json) (schema : Schema) : Prop where
  described : ∀ path, (schema.rules.get? path).isSome = true ↔
    ∃ node ∈ nodes document, path <+: node.1
  rules : ∀ path rules, schema.rules.get? path = some rules →
    List.Forall₂ (fun written rule => rule.expectation = written.2 ∧
        assertion schema.references path written.1 written.2 = .ok rule.assertion)
      (assertionsAt document path) rules
  marked : ∀ path, (schema.leaves.get? path).isSome = true ↔ IsMarked document path
  leaves : ∀ path leaf, schema.leaves.get? path = some leaf → LeafOf document path leaf
  references : schema.references = Fields.ofEntries (definitions document)
  named : ∀ name, schema.references.lookup name = lastDefinition? document name

/-! ## What a document declares, by its keys -/

theorem mem_nodes {document : Json} {path : TreePath} {value : Json} :
    (path, value) ∈ nodes document ↔ (path, .node value) ∈ outline .root document := by
  unfold nodes
  rw [List.mem_filterMap]
  constructor
  · rintro ⟨⟨place, line⟩, hmem, hline⟩
    cases line <;> cases hline
    exact hmem
  · intro hmem
    exact ⟨_, hmem, rfl⟩

theorem mem_entries {document : Json} {path : TreePath} {key : String} {value : Json} :
    ⟨path, key, value⟩ ∈ entries document ↔ (path, .key key value) ∈ outline .root document := by
  unfold entries
  rw [List.mem_filterMap]
  constructor
  · rintro ⟨⟨place, line⟩, hmem, hline⟩
    cases line <;> cases hline
    exact hmem
  · intro hmem
    exact ⟨_, hmem, rfl⟩

theorem ofSchema_isOk {document : Json} :
    (∃ declarations, ofSchema document = .ok declarations) ↔
      (∀ node ∈ nodes document, ∃ fields, node.2 = .obj fields) ∧
        ∀ entry ∈ entries document, ∃ content, Content.Written entry.key entry.value content := by
  rw [ofSchema, ofNode_eq_mapM, Except.mapM_isOk]
  simp only [ofLine_ok]
  constructor
  · intro h
    constructor
    · rintro ⟨path, value⟩ hmem
      obtain ⟨_, hdeclares⟩ := h _ (mem_nodes.mp hmem)
      cases hdeclares with
      | node fields => exact ⟨fields, rfl⟩
    · rintro ⟨path, key, value⟩ hmem
      obtain ⟨_, hdeclares⟩ := h _ (mem_entries.mp hmem)
      cases hdeclares with
      | key hwritten => exact ⟨_, hwritten⟩
  · rintro ⟨hnodes, hkeys⟩ ⟨path, line⟩ hmem
    cases line with
    | node value =>
      obtain ⟨fields, hfields⟩ := hnodes _ (mem_nodes.mpr hmem)
      cases hfields
      exact ⟨_, .node fields⟩
    | key name value =>
      obtain ⟨content, hwritten⟩ := hkeys _ (mem_entries.mpr hmem)
      exact ⟨_, .key hwritten⟩

section
variable {document : Json} {declarations : List Declaration} (hread : ofSchema document = .ok declarations)
include hread

theorem exists_declaration {line : TreePath × Line} (hline : line ∈ outline .root document) :
    ∃ declaration ∈ declarations, Line.Declares line.1 line.2 declaration :=
  exists_of_forall₂_right (ofSchema_ok.mp hread).flip hline

theorem exists_line {declaration : Declaration} (hmem : declaration ∈ declarations) :
    ∃ line ∈ outline .root document, Line.Declares line.1 line.2 declaration :=
  exists_of_forall₂_right (ofSchema_ok.mp hread) hmem

theorem mem_node {path : TreePath} :
    ⟨path, .node⟩ ∈ declarations ↔ ∃ node ∈ nodes document, node.1 = path := by
  constructor
  · intro hmem
    obtain ⟨⟨place, line⟩, hline, hdeclares⟩ := exists_line hread hmem
    cases hdeclares with
    | node fields => exact ⟨(_, .obj fields), mem_nodes.mpr hline, rfl⟩
    | key hwritten => cases hwritten
  · rintro ⟨⟨place, value⟩, hmem, rfl⟩
    obtain ⟨declaration, hdeclaration, hdeclares⟩ := exists_declaration hread (mem_nodes.mp hmem)
    cases hdeclares
    exact hdeclaration

theorem mem_marker {path : TreePath} :
    (∃ marker, ⟨path, .marker marker⟩ ∈ declarations) ↔ IsMarked document path := by
  constructor
  · rintro ⟨marker, hmem⟩
    obtain ⟨⟨place, line⟩, hline, hdeclares⟩ := exists_line hread hmem
    cases hdeclares with
    | key hwritten =>
      cases hwritten with
      | marker hmarker =>
        exact ⟨⟨_, _, _⟩, mem_entries.mpr hline, rfl, hmarker.key_eq ▸ Marker.name_mem _⟩
  · rintro ⟨⟨place, key, value⟩, hmem, rfl, hkey⟩
    obtain ⟨declaration, hdeclaration, hdeclares⟩ := exists_declaration hread (mem_entries.mp hmem)
    cases hdeclares with
    | key hwritten =>
      obtain ⟨marker, rfl, -⟩ := hwritten.exists_marker hkey
      exact ⟨marker, hdeclaration⟩

/-- A key stands in a node. -/
theorem node_of_mem_entries {entry : Entry} (hmem : entry ∈ entries document) : ⟨entry.path, .node⟩ ∈ declarations := by
  obtain ⟨declaration, hdeclaration, hdeclares⟩ := exists_declaration hread (mem_entries.mp hmem)
  cases hdeclares with
  | key _ => exact node_of_mem_ofNode _ hread _ hdeclaration

theorem forall₂_filterMap {α β : Type} {P : α → β → Prop} {f : Entry → Option α} {g : Declaration → Option β}
    (hnode : ∀ path, g ⟨path, .node⟩ = none)
    (hkey : ∀ entry content, Content.Written entry.key entry.value content →
      Option.Rel P (f entry) (g ⟨entry.path, content⟩)) :
    List.Forall₂ P ((entries document).filterMap f) (declarations.filterMap g) := by
  unfold entries
  rw [List.filterMap_filterMap]
  refine List.rel_filterMap (fun line declaration hdeclares => ?_) (ofSchema_ok.mp hread)
  obtain ⟨place, line⟩ := line
  cases hdeclares with
  | node fields =>
    -- a node is no key, and nothing is taken from its declaration
    rw [hnode]
    exact .none
  | key hwritten => exact hkey ⟨place, _, _⟩ _ hwritten

theorem filterMap_entries {α : Type} {f : Entry → Option α} {g : Declaration → Option α}
    (hnode : ∀ path, g ⟨path, .node⟩ = none)
    (hkey : ∀ entry content, Content.Written entry.key entry.value content →
      f entry = g ⟨entry.path, content⟩) :
    (entries document).filterMap f = declarations.filterMap g := by
  rw [← List.forall₂_eq_eq_eq]
  refine forall₂_filterMap hread hnode fun entry content hwritten => ?_
  rw [hkey entry content hwritten]
  cases g ⟨entry.path, content⟩ with
  | none => exact .none
  | some _ => exact .some rfl

theorem assertionsAt_eq (path : TreePath) :
    assertionsAt document path = declarations.filterMap fun declaration =>
      if declaration.path = path then declaration.content.assertion? else none := by
  refine filterMap_entries hread (fun place => ite_self _) fun entry content hwritten => ?_
  rw [hwritten.assertion?_eq]

theorem definitions_eq :
    definitions document = declarations.filterMap fun declaration => declaration.content.reference? :=
  filterMap_entries hread (fun _ => rfl) fun _ _ hwritten => hwritten.reference?_eq.symm

theorem referencesOf_eq : referencesOf declarations = Fields.ofEntries (definitions document) := by
  rw [definitions_eq hread, Fields.ofEntries, List.foldl_filterMap]
  unfold referencesOf
  congr 1
  funext references declaration
  cases declaration.content <;> rfl

end

/-! ## Leaves -/

def markerAt? (path : TreePath) (declaration : Declaration) : Option Marker :=
  if declaration.path = path then declaration.content.marker? else none

/-- The markers at a path, in document order. -/
def markersAt (declarations : List Declaration) (path : TreePath) : List Marker :=
  declarations.filterMap (markerAt? path)

theorem get?_addMarker (leaves : Table LeafRule) (declaration : Declaration) (path : TreePath) :
    ((addMarker leaves declaration).get? path).getD LeafRule.empty =
      (markerAt? path declaration).toList.foldl Marker.set ((leaves.get? path).getD LeafRule.empty) := by
  obtain ⟨place, content⟩ := declaration
  cases content with
  | marker marker =>
    unfold addMarker markerAt?
    dsimp only
    rw [Table.get?_insert]
    by_cases h : place = path
    · subst h
      rw [if_pos rfl, if_pos rfl]
      rfl
    · rw [if_neg h, if_neg (Ne.symm h)]
      rfl
  | _ => simp [addMarker, markerAt?, Content.marker?]

theorem get?_foldl_addMarker (path : TreePath) : ∀ (declarations : List Declaration) (leaves : Table LeafRule),
    ((declarations.foldl addMarker leaves).get? path).getD LeafRule.empty =
      (markersAt declarations path).foldl Marker.set ((leaves.get? path).getD LeafRule.empty)
  | [], _ => rfl
  | declaration :: rest, leaves => by
    have hcons : markersAt (declaration :: rest) path =
        (markerAt? path declaration).toList ++ markersAt rest path := by
      unfold markersAt
      rw [List.filterMap_cons]
      cases markerAt? path declaration <;> rfl
    rw [List.foldl_cons, get?_foldl_addMarker path rest, get?_addMarker, hcons, List.foldl_append]

theorem leaf_eq {path : TreePath} {leaf : LeafRule} {declarations : List Declaration}
    (h : (leavesOf declarations).get? path = some leaf) :
    leaf = (markersAt declarations path).foldl Marker.set LeafRule.empty := by
  have hfold := get?_foldl_addMarker path declarations Table.empty
  rw [← leavesOf_eq, h] at hfold
  exact hfold

theorem sorted_leavesOf (declarations : List Declaration) : (leavesOf declarations).Sorted := by
  rw [leavesOf_eq]
  suffices h : ∀ leaves : Table LeafRule, leaves.Sorted → (declarations.foldl addMarker leaves).Sorted from
    h _ Table.sorted_empty
  induction declarations with
  | nil => exact fun _ h => h
  | cons declaration rest ih =>
    intro leaves h
    refine ih _ ?_
    unfold addMarker
    split
    · exact Table.sorted_insert h _ _
    · exact h

/-- An attribute of a leaf is the one set last. -/
theorem foldl_set {α : Type} {part : LeafRule → α} {own? : Marker → Option α}
    (hset : ∀ leaf marker, part (Marker.set leaf marker) = (own? marker).getD (part leaf)) :
    ∀ (markers : List Marker) (leaf : LeafRule),
      part (markers.foldl Marker.set leaf) = ((markers.filterMap own?).getLast?).getD (part leaf)
  | [], _ => rfl
  | marker :: rest, leaf => by
    rw [List.foldl_cons, foldl_set hset rest, hset, getLast?_filterMap_cons]
    cases ((rest.filterMap own?).getLast?) <;> rfl

theorem rel_getLast? {α β : Type} {R : α → β → Prop} {l : List α} {m : List β} (h : List.Forall₂ R l m) :
    Option.Rel R l.getLast? m.getLast? := by
  rw [List.getLast?_eq_head?_reverse, List.getLast?_eq_head?_reverse]
  have hreverse := List.rel_reverse h
  generalize l.reverse = l' at hreverse ⊢
  generalize m.reverse = m' at hreverse ⊢
  cases hreverse with
  | nil => exact .none
  | cons hrel _ => exact .some hrel

def Marker.action? : Marker → Option LeafAction
  | .action value => some value
  | _ => none

def Marker.path? : Marker → Option String
  | .path value => some value
  | _ => none

def Marker.template? : Marker → Option TemplateSource
  | .template value => some value
  | _ => none

def Marker.conditions? : Marker → Option (List WhenRule)
  | .conditions value => some value
  | _ => none

def Marker.defaults? : Marker → Option Fields
  | .defaults value => some value
  | _ => none

/-- The markers of one kind, which have one key. -/
structure IsKind {α : Type} (own? : Marker → Option α) (key : String) (marker : α → Marker) : Prop where
  mem : key ∈ markerNames
  reads : ∀ {m value}, own? m = some value → m = marker value
  named : ∀ m, (own? m).isSome = true ↔ m.name = key

section
variable {document : Json} {declarations : List Declaration} (hread : ofSchema document = .ok declarations)
include hread

theorem lastMarker {α : Type} {own? : Marker → Option α} {key : String} {marker : α → Marker}
    (hkind : IsKind own? key marker) (path : TreePath) :
    LastMarker document path key marker ((markersAt declarations path).filterMap own?).getLast? := by
  unfold LastMarker lastAt? markersAt
  rw [List.filterMap_filterMap]
  refine rel_getLast? (forall₂_filterMap hread (fun place => ?_) fun entry content hwritten => ?_)
  · unfold markerAt?
    split <;> rfl
  · unfold markerAt?
    by_cases hpath : entry.path = path
    · rw [if_pos hpath]
      by_cases hname : entry.key = key
      · obtain ⟨m, rfl, hmarker⟩ := hwritten.exists_marker (hname ▸ hkind.mem)
        obtain ⟨value, hvalue⟩ := Option.isSome_iff_exists.mp
          ((hkind.named m).mpr (hmarker.key_eq.symm.trans hname))
        rw [if_pos ⟨hpath, hname⟩]
        simp only [Content.marker?, Option.bind_some, hvalue]
        rw [hkind.reads hvalue, hname] at hmarker
        exact .some hmarker
      · -- another key, so no marker of this kind
        rw [if_neg fun h => hname h.2]
        cases hwritten with
        | @marker _ m hmarker =>
          have hnone : own? m = none := by
            rw [← Option.not_isSome_iff_eq_none, hkind.named]
            exact fun h => hname (hmarker.key_eq.trans h)
          simp only [Content.marker?, Option.bind_some, hnone]
          exact .none
        | _ => exact .none
    · rw [if_neg fun h => hpath h.1, if_neg hpath]
      exact .none

variable {path : TreePath} {leaf : LeafRule} (hleaf : (leavesOf declarations).get? path = some leaf)
include hleaf

theorem exists_lastMarker {α : Type} {own? : Marker → Option α} {key : String} {marker : α → Marker}
    (hkind : IsKind own? key marker) (part : LeafRule → α)
    (hset : ∀ leaf m, part (Marker.set leaf m) = (own? m).getD (part leaf)) :
    ∃ own, LastMarker document path key marker own ∧ part leaf = own.getD (part LeafRule.empty) := by
  refine ⟨_, lastMarker hread hkind path, ?_⟩
  rw [leaf_eq hleaf]
  exact foldl_set hset _ _

theorem lastMarker_of_option {α : Type} {own? : Marker → Option α} {key : String} {marker : α → Marker}
    (hkind : IsKind own? key marker) {part : LeafRule → Option α} (hempty : part LeafRule.empty = none)
    (hset : ∀ leaf m, part (Marker.set leaf m) = ((own? m).map some).getD (part leaf)) :
    LastMarker document path key marker (part leaf) := by
  have hpart : part leaf = ((markersAt declarations path).filterMap own?).getLast? := by
    rw [leaf_eq hleaf, foldl_set hset, hempty, ← List.map_filterMap, List.getLast?_map]
    cases ((markersAt declarations path).filterMap own?).getLast? <;> rfl
  rw [hpart]
  exact lastMarker hread hkind path

theorem leafOf : LeafOf document path leaf where
  path := by
    have hkind : IsKind Marker.path? "path" .path := by
      refine ⟨by decide, fun {m} => ?_, fun m => ?_⟩ <;> cases m <;> simp [Marker.path?, Marker.name]
    exact lastMarker_of_option hread hleaf hkind rfl fun leaf m => by cases m <;> rfl
  template := by
    have hkind : IsKind Marker.template? "template" .template := by
      refine ⟨by decide, fun {m} => ?_, fun m => ?_⟩ <;> cases m <;> simp [Marker.template?, Marker.name]
    exact lastMarker_of_option hread hleaf hkind rfl fun leaf m => by cases m <;> rfl
  action := by
    have hkind : IsKind Marker.action? "action" .action := by
      refine ⟨by decide, fun {m} => ?_, fun m => ?_⟩ <;> cases m <;> simp [Marker.action?, Marker.name]
    exact exists_lastMarker hread hleaf hkind LeafRule.action fun leaf m => by cases m <;> rfl
  conditions := by
    have hkind : IsKind Marker.conditions? "when" .conditions := by
      refine ⟨by decide, fun {m} => ?_, fun m => ?_⟩ <;> cases m <;> simp [Marker.conditions?, Marker.name]
    exact exists_lastMarker hread hleaf hkind LeafRule.conditions fun leaf m => by cases m <;> rfl
  defaults := by
    have hkind : IsKind Marker.defaults? "defaults" .defaults := by
      refine ⟨by decide, fun {m} => ?_, fun m => ?_⟩ <;> cases m <;> simp [Marker.defaults?, Marker.name]
    exact exists_lastMarker hread hleaf hkind LeafRule.defaults fun leaf m => by cases m <;> rfl

end

theorem LastMarker.isSome_iff {α : Type} {document : Json} {path : TreePath} {key : String}
    {marker : α → Marker} {own : Option α} (h : LastMarker document path key marker own) :
    own.isSome = true ↔ (lastAt? document path key).isSome = true := by
  unfold LastMarker at h
  generalize lastAt? document path key = last at h ⊢
  cases h <;> simp

namespace LeafOf

variable {document : Json} {place : TreePath} {leaf : LeafRule} (h : LeafOf document place leaf)
include h

theorem generates : leaf.action = .generate ↔ lastAt? document place "action" ≠ some (.str "suppress") := by
  obtain ⟨own, hlast, haction⟩ := h.action
  rw [haction]
  unfold LastMarker at hlast
  generalize lastAt? document place "action" = last at hlast ⊢
  cases hlast with
  | none => simp
  | some hwritten => simpa using hwritten.generates_iff

theorem isComplete : leaf.IsComplete ↔
    (lastAt? document place "path").isSome = true ∧ (lastAt? document place "template").isSome = true := by
  rw [LeafRule.IsComplete, h.path.isSome_iff, h.template.isSome_iff]

end LeafOf

section
variable {document : Json} {declarations : List Declaration} (hread : ofSchema document = .ok declarations)
include hread

theorem leaves_ok :
    (∀ entry ∈ (leavesOf declarations).entries, checkLeaf entry.1 entry.2 = .ok ()) ↔
      ∀ path, IsMarked document path → lastAt? document path "action" ≠ some (.str "suppress") →
        (lastAt? document path "path").isSome = true ∧ (lastAt? document path "template").isSome = true := by
  have hsorted := sorted_leavesOf declarations
  constructor
  · intro hchecks path hmarked hgenerates
    obtain ⟨leaf, hleaf⟩ := Option.isSome_iff_exists.mp
      (contains_leavesOf.mpr ((mem_marker hread).mpr hmarked))
    have hof := leafOf hread hleaf
    have hcheck := hchecks (path, leaf) (mem_of_lookup hleaf)
    exact hof.isComplete.mp (checkLeaf_ok.mp hcheck (hof.generates.mpr hgenerates))
  · rintro hcomplete ⟨path, leaf⟩ hmem
    have hleaf := (Table.get?_eq_some_iff hsorted).mpr hmem
    have hof := leafOf hread hleaf
    have hmarked : IsMarked document path := by
      rw [← mem_marker hread, ← contains_leavesOf, Table.contains, hleaf]
      rfl
    rw [checkLeaf_ok]
    intro hgenerates
    exact hof.isComplete.mpr (hcomplete path hmarked (hof.generates.mp hgenerates))

theorem rulesAt_eq (path : TreePath) : rulesAt declarations (referencesOf declarations) path =
    (assertionsAt document path).mapM fun (kind, expectation) =>
      (assertion (Fields.ofEntries (definitions document)) path kind expectation).map
        fun assertion => ⟨assertion, expectation⟩ := by
  rw [assertionsAt_eq hread, ← referencesOf_eq hread]
  unfold rulesAt
  congr 2
  funext declaration
  cases declaration.content <;> simp [Content.assertion?]

theorem rulesAt_eq_ok {path : TreePath} {rules : List Rule} :
    rulesAt declarations (referencesOf declarations) path = .ok rules ↔
      List.Forall₂ (fun written rule => rule.expectation = written.2 ∧
          assertion (Fields.ofEntries (definitions document)) path written.1 written.2 = .ok rule.assertion)
        (assertionsAt document path) rules := by
  have hone : ∀ (written : AssertionKind × Json) (rule : Rule),
      (assertion (Fields.ofEntries (definitions document)) path written.1 written.2).map
          (fun assertion => (⟨assertion, written.2⟩ : Rule)) = .ok rule ↔
        rule.expectation = written.2 ∧
          assertion (Fields.ofEntries (definitions document)) path written.1 written.2 = .ok rule.assertion := by
    intro written rule
    rw [Except.map_eq_ok]
    constructor
    · rintro ⟨compiled, hcompiled, rfl⟩; exact ⟨rfl, hcompiled⟩
    · rintro ⟨hexpectation, hcompiled⟩; exact ⟨_, hcompiled, by rw [← hexpectation]⟩
  rw [rulesAt_eq hread, Except.mapM_eq_ok]
  simp only [hone]

theorem rules_ok :
    (∀ path ∈ pathsOf declarations, ∃ rules, rulesAt declarations (referencesOf declarations) path = .ok rules) ↔
      ∀ entry ∈ entries document, ∀ kind, AssertionKind.ofName? entry.key = some kind →
        ∃ compiled, assertion (Fields.ofEntries (definitions document)) entry.path kind entry.value = .ok compiled := by
  simp only [rulesAt_eq hread, Except.mapM_isOk, Except.map_eq_ok]
  constructor
  · rintro h ⟨path, key, value⟩ hmem kind hkind
    have hwritten : (kind, value) ∈ assertionsAt document path := by
      refine List.mem_filterMap.mpr ⟨_, hmem, ?_⟩
      rw [if_pos rfl, hkind]
      rfl
    -- an assertion stands at a node, so its path is among those that are lowered
    have hpath : path ∈ pathsOf declarations :=
      mem_pathsOf.mpr ⟨path, node_of_mem_entries hread hmem, List.prefix_rfl⟩
    obtain ⟨_, compiled, hcompiled, -⟩ := h path hpath _ hwritten
    exact ⟨compiled, hcompiled⟩
  · rintro h path - ⟨kind, expectation⟩ hwritten
    obtain ⟨⟨place, key, value⟩, hmem, hentry⟩ := List.mem_filterMap.mp hwritten
    by_cases hplace : place = path
    · rw [if_pos hplace] at hentry
      obtain ⟨kind', hkind, hpair⟩ := Option.map_eq_some_iff.mp hentry
      cases hpair
      obtain ⟨compiled, hcompiled⟩ := h _ hmem kind hkind
      exact ⟨_, compiled, hplace ▸ hcompiled, rfl⟩
    · rw [if_neg hplace] at hentry
      cases hentry

end

theorem ofDeclarations_isOk {declarations : List Declaration} :
    (∃ schema, ofDeclarations declarations = .ok schema) ↔
      (∀ path ∈ pathsOf declarations, ∃ rules, rulesAt declarations (referencesOf declarations) path = .ok rules) ∧
        ∀ entry ∈ (leavesOf declarations).entries, checkLeaf entry.1 entry.2 = .ok () := by
  constructor
  · rintro ⟨schema, h⟩
    obtain ⟨hrules, hleaves, -⟩ := ofDeclarations_eq_ok.mp h
    refine ⟨fun path hpath => ?_, hleaves⟩
    obtain ⟨entry, -, -, hentry⟩ := exists_of_forall₂_right hrules.flip hpath
    exact ⟨entry.2, hentry⟩
  · rintro ⟨hrules, hleaves⟩
    have hpairs : ∀ path ∈ pathsOf declarations, ∃ entry : TreePath × List Rule,
        (rulesAt declarations (referencesOf declarations) path).map (fun rules => (path, rules)) = .ok entry := by
      intro path hpath
      obtain ⟨rules, h⟩ := hrules path hpath
      exact ⟨(path, rules), Except.map_eq_ok.mpr ⟨rules, h, rfl⟩⟩
    obtain ⟨entries, hentries⟩ := (Except.mapM_isOk _ _).mpr hpairs
    refine ⟨⟨⟨entries⟩, referencesOf declarations, leavesOf declarations, domainsOf entries⟩,
      ofDeclarations_eq_ok.mpr ⟨?_, hleaves, rfl, rfl, rfl⟩⟩
    refine ((Except.mapM_eq_ok _ _).mp hentries).imp fun path entry h => ?_
    obtain ⟨rules, hpath, rfl⟩ := Except.map_eq_ok.mp h
    exact ⟨rfl, hpath⟩

theorem tablesOf {document : Json} {schema : Schema} (h : compile document = .ok schema) :
    TablesOf document schema := by
  obtain ⟨declarations, hread, hschema⟩ := compile_eq_ok.mp h
  obtain ⟨-, -, hreferences, hleaves, -⟩ := ofDeclarations_eq_ok.mp hschema
  have hdefinitions : schema.references = Fields.ofEntries (definitions document) := by
    rw [hreferences, referencesOf_eq hread]
  constructor
  · intro path
    rw [← Table.contains, contains_rules hschema]
    simp only [mem_node hread]
    constructor
    · rintro ⟨_, ⟨node, hnode, rfl⟩, hprefix⟩; exact ⟨node, hnode, hprefix⟩
    · rintro ⟨node, hnode, hprefix⟩; exact ⟨_, ⟨node, hnode, rfl⟩, hprefix⟩
  · intro path rules hrules
    have hlowered := rulesAt_of_get? hschema hrules
    rw [hreferences, rulesAt_eq_ok hread] at hlowered
    rw [hdefinitions]
    exact hlowered
  · intro path
    rw [← Table.contains, hleaves, contains_leavesOf, mem_marker hread]
  · intro path leaf hleaf
    exact leafOf hread (hleaves ▸ hleaf)
  · exact hdefinitions
  · intro name
    rw [hdefinitions, Fields.lookup_ofEntries]
    rfl

theorem isOk_iff_wellFormed {document : Json} :
    (∃ schema, compile document = .ok schema) ↔ WellFormed document := by
  simp only [compile_eq_ok]
  constructor
  · rintro ⟨schema, declarations, hread, hschema⟩
    obtain ⟨hnodes, hkeys⟩ := ofSchema_isOk.mp ⟨declarations, hread⟩
    obtain ⟨hrules, hleaves⟩ := ofDeclarations_isOk.mp ⟨schema, hschema⟩
    exact ⟨hnodes, hkeys, (rules_ok hread).mp hrules, (leaves_ok hread).mp hleaves⟩
  · intro h
    obtain ⟨declarations, hread⟩ := ofSchema_isOk.mpr ⟨h.nodes, h.keys⟩
    obtain ⟨schema, hschema⟩ := ofDeclarations_isOk.mpr
      ⟨(rules_ok hread).mpr h.expectations, (leaves_ok hread).mpr h.leaves⟩
    exact ⟨schema, declarations, hread, hschema⟩

/-- **Compilation.** A document compiles exactly when it is well formed, and its tables are then those
of its keys. -/
theorem compile_tabulates (document : Json) :
    ((∃ schema, compile document = .ok schema) ↔ WellFormed document) ∧
      ∀ schema, compile document = .ok schema → TablesOf document schema :=
  ⟨isOk_iff_wellFormed, fun _ => tablesOf⟩

-- three keys for one node, of which the innermost comes last
example : lastAt? (.obj [("/a", .obj [("path", .str "x")]),
    ("//a", .obj [("path", .str "y"), ("/", .obj [("path", .str "z")])])])
    [.ofKey "a"] "path" = some (.str "z") := rfl

end Schema

end TestMatrix
