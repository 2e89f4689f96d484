import Mathlib.Data.List.Forall2
import TestMatrix.Proofs.Nodes
import TestMatrix.Proofs.Outcomes
import TestMatrix.Schema.Declaration

/-!
# The outline of a schema document

The keys of a schema document that begin with a slash open nodes; all other keys stand in the node
around them. Written as one list, in document order, this is the outline of the document. What a
document declares is read off its outline line by line, and what a line may say is stated here
without the code that reads it.
-/

namespace TestMatrix

/-! ## What a key and its value say -/

/-- Content as it is written: a text, or a mapping of texts with a `main` one. -/
inductive TemplateSource.Written : Json → TemplateSource → Prop
  | inline (text : String) : Written (.str text) (.inline text)
  | external {fields : Fields} {main : String} {parts : List (String × String)} :
    fields.lookup "main" = some (.str main) →
    fields.filter (fun field => field.1 != "main") = parts.map (fun part => (part.1, .str part.2)) →
    Written (.obj fields) (.external main (sortByName parts))

/-- A marker as it is written, with its key. -/
inductive Marker.Written : String → Json → Marker → Prop
  | generate : Written "action" (.str "generate") (.action .generate)
  | suppress : Written "action" (.str "suppress") (.action .suppress)
  | path (text : String) : Written "path" (.str text) (.path text)
  | template {value : Json} {source : TemplateSource} :
    TemplateSource.Written value source → Written "template" value (.template source)
  | conditions {block : Json} {rules : List WhenRule} :
    When.parse block = .ok rules → Written "when" block (.conditions rules)
  | defaults (fields : Fields) : Written "defaults" (.obj fields) (.defaults fields)

def markerNames : List String := ["action", "path", "template", "when", "defaults"]

/-- The name that a key defines. -/
def definedName? (key : String) : Option String :=
  match key.toList with
  | '#' :: name => some (String.ofList name)
  | _ => none

/-- A key is an assertion, the definition of a name, or a marker whose value has its shape. -/
inductive Content.Written : String → Json → Content → Prop
  | assertion {key : String} {kind : AssertionKind} (expectation : Json) :
    AssertionKind.ofName? key = some kind → Written key expectation (.assertion kind expectation)
  | reference {key name : String} (value : Json) :
    definedName? key = some name → Written key value (.reference name value)
  | marker {key : String} {value : Json} {marker : Marker} :
    Marker.Written key value marker → Written key value (.marker marker)

theorem Json.str?_eq_some {value : Json} {text : String} : value.str? = some text ↔ value = .str text := by
  cases value <;> simp [str?]

theorem mapM_str?_eq_some {fields : Fields} {texts : List (String × String)} :
    (fields.mapM fun (part : String × Json) => part.2.str?.map fun text => (part.1, text)) = some texts ↔
      fields = texts.map fun part => (part.1, .str part.2) := by
  have hone : ∀ (part : String × Json) (text : String × String),
      part.2.str?.map (fun text => (part.1, text)) = some text ↔ part = (text.1, .str text.2) := by
    intro part text
    obtain ⟨name, value⟩ := part
    simp only [Option.map_eq_some_iff, Json.str?_eq_some]
    constructor
    · rintro ⟨_, rfl, rfl⟩; rfl
    · intro h; cases h; exact ⟨_, rfl, rfl⟩
  simp only [Option.mapM_eq_some, hone]
  rw [← List.forall₂_map_right_iff (R := Eq), List.forall₂_eq_eq_eq]

theorem TemplateSource.ofJson?_eq_some {value : Json} {source : TemplateSource} :
    TemplateSource.ofJson? value = some source ↔ Written value source := by
  cases value with
  | str text =>
    rw [ofJson?]
    constructor
    · intro h; cases h; exact .inline text
    · intro h; cases h; rfl
  | obj fields =>
    cases hmain : (fields.lookup "main").bind Json.str? with
    | none =>
      rw [ofJson?, hmain]
      refine ⟨(nomatch ·), fun h => ?_⟩
      cases h with
      | external hmain' _ => rw [hmain'] at hmain; cases hmain
    | some main =>
      obtain ⟨written, hwritten, htext⟩ := Option.bind_eq_some_iff.mp hmain
      cases Json.str?_eq_some.mp htext
      rw [ofJson?, hmain]
      simp only [Option.map_eq_some_iff, mapM_str?_eq_some]
      constructor
      · rintro ⟨parts, hparts, rfl⟩
        exact .external hwritten hparts
      · intro h
        cases h with
        | external hmain' hparts =>
          rw [hwritten] at hmain'
          cases hmain'
          exact ⟨_, hparts, rfl⟩
  | _ => exact ⟨(nomatch ·), fun h => nomatch h⟩

theorem definedName?_eq_some {key name : String} :
    definedName? key = some name ↔ key.toList = '#' :: name.toList := by
  unfold definedName?
  constructor
  · intro h
    split at h
    · next chars hkey => cases h; rw [hkey, String.toList_ofList]
    · cases h
  · intro h
    simp only [h, String.ofList_toList]

theorem ofName?_of_defined {key name : String} (h : definedName? key = some name) :
    AssertionKind.ofName? key = none := by
  have hkey := definedName?_eq_some.mp h
  unfold AssertionKind.ofName?
  split <;> first | rfl | cases hkey

namespace Declaration

theorem marker?_eq_some_ok {path : TreePath} {name : String} {value : Json} {marker : Marker} :
    marker? path name value = some (.ok marker) ↔ Marker.Written name value marker := by
  constructor
  · intro h
    unfold marker? at h
    split at h
    · split at h
      · cases h; exact .generate
      · cases h; exact .suppress
      · cases h
    · split at h
      · cases h; exact .path _
      · cases h
    · split at h
      · next source hsource => cases h; exact .template (TemplateSource.ofJson?_eq_some.mp hsource)
      · cases h
    · split at h
      · next rules hrules => cases h; exact .conditions hrules
      · cases h
    · split at h
      · cases h; exact .defaults _
      · cases h
    · cases h
  · intro h
    cases h with
    | template hsource => simp only [marker?, TemplateSource.ofJson?_eq_some.mpr hsource]
    | conditions hrules => simp only [marker?, hrules]
    | _ => rfl

theorem contentOf_ok {path : TreePath} {key : String} {value : Json} {content : Content} :
    contentOf path key value = .ok content ↔ Content.Written key value content := by
  constructor
  · intro h
    unfold contentOf at h
    split at h
    · next kind hkind => cases h; exact .assertion value hkind
    · split at h
      · next name hname =>
        cases h
        exact .reference value (definedName?_eq_some.mpr (by rw [hname, String.toList_ofList]))
      · split at h
        · next marker hmarker =>
          obtain ⟨found, rfl, rfl⟩ := Except.map_eq_ok.mp h
          exact .marker (marker?_eq_some_ok.mp hmarker)
        · cases h
  · intro h
    cases h with
    | assertion _ hkind => rw [contentOf, hkind]
    | reference _ hname =>
      simp only [contentOf, ofName?_of_defined hname, definedName?_eq_some.mp hname, String.ofList_toList]
    | marker hmarker =>
      have hfound : marker? path key value = some (.ok _) := marker?_eq_some_ok.mpr hmarker
      cases hmarker with
      | _ => simp only [contentOf, hfound]; rfl

end Declaration

/-! ## The three kinds of content -/

def Content.assertion? : Content → Option (AssertionKind × Json)
  | .assertion kind expectation => some (kind, expectation)
  | _ => none

def Content.reference? : Content → Option (String × Json)
  | .reference name value => some (name, value)
  | _ => none

def Content.marker? : Content → Option Marker
  | .marker set => some set
  | _ => none

/-- The key under which a marker is written. -/
def Marker.name : Marker → String
  | .action _ => "action"
  | .path _ => "path"
  | .template _ => "template"
  | .conditions _ => "when"
  | .defaults _ => "defaults"

theorem Marker.name_mem (marker : Marker) : marker.name ∈ markerNames := by
  cases marker <;> simp [name, markerNames]

theorem Marker.Written.key_eq {key : String} {value : Json} {marker : Marker}
    (h : Marker.Written key value marker) : key = marker.name := by
  cases h <;> rfl

theorem Marker.Written.generates_iff {key : String} {value : Json} {action : LeafAction}
    (h : Marker.Written key value (.action action)) : action = .generate ↔ value ≠ .str "suppress" := by
  cases h <;> simp

theorem ofName?_of_marker : ∀ key ∈ markerNames, AssertionKind.ofName? key = none := by decide

theorem definedName?_of_marker : ∀ key ∈ markerNames, definedName? key = none := by decide

namespace Content.Written

variable {key : String} {value : Json} {content : Content} (h : Content.Written key value content)
include h

theorem assertion?_eq : content.assertion? = (AssertionKind.ofName? key).map fun kind => (kind, value) := by
  cases h with
  | assertion _ hkind => rw [hkind]; rfl
  | reference _ hname => rw [ofName?_of_defined hname]; rfl
  | marker hmarker => rw [hmarker.key_eq, ofName?_of_marker _ (Marker.name_mem _)]; rfl

theorem reference?_eq : content.reference? = (definedName? key).map fun name => (name, value) := by
  cases h with
  | assertion _ hkind =>
    cases hname : definedName? key with
    | none => rfl
    | some name => rw [ofName?_of_defined hname] at hkind; cases hkind
  | reference _ hname => rw [hname]; rfl
  | marker hmarker => rw [hmarker.key_eq, definedName?_of_marker _ (Marker.name_mem _)]; rfl

theorem exists_marker (hkey : key ∈ markerNames) :
    ∃ marker, content = .marker marker ∧ Marker.Written key value marker := by
  cases h with
  | assertion _ hkind => rw [ofName?_of_marker _ hkey] at hkind; cases hkind
  | reference _ hname => rw [definedName?_of_marker _ hkey] at hname; cases hname
  | marker hmarker => exact ⟨_, rfl, hmarker⟩

/-- A key that defines no name is an assertion or a marker. -/
theorem definedName?_eq_none : definedName? key = none ↔
    (AssertionKind.ofName? key).isSome = true ∨ key ∈ markerNames := by
  cases h with
  | assertion _ hkind =>
    have hname : definedName? key = none := by
      rw [Option.eq_none_iff_forall_ne_some]
      intro name hname
      rw [ofName?_of_defined hname] at hkind
      cases hkind
    simp [hkind, hname]
  | reference _ hname =>
    have hmarker : key ∉ markerNames := by
      intro hmem
      rw [definedName?_of_marker key hmem] at hname
      cases hname
    simp [hname, ofName?_of_defined hname, hmarker]
  | marker hmarker =>
    have hmem : key ∈ markerNames := hmarker.key_eq ▸ Marker.name_mem _
    simp [definedName?_of_marker key hmem, hmem]

end Content.Written

/-! ## Lines -/

/-- A node, or a key that opens no node. -/
inductive Line where
  | node (value : Json)
  | key (name : String) (value : Json)

/-- What a line declares at its path. -/
inductive Line.Declares (path : TreePath) : Line → Declaration → Prop
  | node (fields : Fields) : Declares path (.node (.obj fields)) ⟨path, .node⟩
  | key {name : String} {value : Json} {content : Content} :
    Content.Written name value content → Declares path (.key name value) ⟨path, content⟩

namespace Declaration

mutual
/-- The lines of a node at a path and of all below it, a node before its keys. -/
def outline (path : TreePath) : Json → List (TreePath × Line)
  | .obj fields => (path, .node (.obj fields)) :: outlineFields path fields
  | value => [(path, .node value)]
def outlineFields (path : TreePath) : List (String × Json) → List (TreePath × Line)
  | [] => []
  | (key, value) :: rest =>
    (if beginsWithSlash key then outline (path ++ TreePath.parse key) value
      else [(path, .key key value)]) ++ outlineFields path rest
end

def ofLine : TreePath × Line → Except Fault Declaration
  | (path, .node (.obj _)) => .ok ⟨path, .node⟩
  | (path, .node _) => .error (.spec ⟨path, .schemaNodeNotDict path⟩)
  | (path, .key name value) =>
    ((contentOf path name value).mapError Fault.schema).map fun content => ⟨path, content⟩

theorem ofFields_eq_mapM (path : TreePath) : ∀ {fields : List (String × Json)},
    (∀ entry ∈ fields, ∀ path, ofNode path entry.2 = (outline path entry.2).mapM ofLine) →
      ofFields path fields = (outlineFields path fields).mapM ofLine
  | [], _ => by rw [ofFields, outlineFields]; rfl
  | (key, value) :: rest, h => by
    obtain ⟨hvalue, hrest⟩ := List.forall_mem_cons.mp h
    rw [ofFields, outlineFields, List.mapM_append, ← ofFields_eq_mapM path hrest]
    by_cases hslash : beginsWithSlash key = true
    · rw [if_pos hslash, if_pos hslash, ← hvalue]
    · rw [if_neg hslash, if_neg hslash, List.mapM_cons, ofLine]
      cases contentOf path key value <;> rfl

theorem ofNode_eq_mapM (node : Json) : ∀ path : TreePath, ofNode path node = (outline path node).mapM ofLine := by
  induction node using Json.children_induction with
  | step node ih =>
    intro path
    cases node with
    | obj fields =>
      have hfields : ∀ entry ∈ fields, ∀ path, ofNode path entry.2 = (outline path entry.2).mapM ofLine :=
        fun entry hmem => ih _ entry.2 (Json.field_mem_children hmem)
      rw [ofNode, outline, List.mapM_cons, ofFields_eq_mapM path hfields]
      rfl
    | _ => rfl

theorem ofLine_ok {line : TreePath × Line} {declaration : Declaration} :
    ofLine line = .ok declaration ↔ Line.Declares line.1 line.2 declaration := by
  obtain ⟨path, line⟩ := line
  cases line with
  | node value =>
    constructor
    · intro h
      cases value with
      | obj fields => cases h; exact .node fields
      | _ => cases h
    · intro h; cases h; rfl
  | key name value =>
    simp only [ofLine, Except.map_eq_ok, Except.mapError_eq_ok, contentOf_ok]
    constructor
    · rintro ⟨content, hwritten, rfl⟩; exact .key hwritten
    · intro h
      cases h with
      | key hwritten => exact ⟨_, hwritten, rfl⟩

theorem ofSchema_ok {document : Json} {declarations : List Declaration} :
    ofSchema document = .ok declarations ↔
      List.Forall₂ (fun line declaration => Line.Declares line.1 line.2 declaration)
        (outline .root document) declarations := by
  rw [ofSchema, ofNode_eq_mapM, Except.mapM_eq_ok]
  simp only [ofLine_ok]

end Declaration

end TestMatrix
