import TestMatrix.Proofs.Coverage
import TestMatrix.Proofs.Faults

/-!
# Which specifications expand

The search for patterns asks for a mapping wherever it comes to a leaf. A valid specification has
satisfied the assertions at its leaves, but only its lists and mappings were looked at, and a leaf need
not have an assertion that asks for a mapping.
-/

namespace TestMatrix

namespace Pattern

/-! ## The search looks at the topmost leaves -/

section
variable (schema : Schema)

def isLeafAt (path : TreePath) : Bool := schema.leaves.contains path.generalize

/-- The nodes from a node down at which the schema has a leaf, in document order. What lies below such
a node is not looked at. -/
def leavesBelow (path : TreePath) (value : Json) : List (TreePath × Json) :=
  (Json.walk (fun path _ _ => !isLeafAt schema path) path value).filter fun node => isLeafAt schema node.1

def topmostLeaves (spec : Json) : List (TreePath × Json) := leavesBelow schema .root spec

/-- The place of a pattern, if the node is a mapping. -/
def placeOf (node : TreePath × Json) : Except SpecFault TreePath :=
  match node.2 with
  | .obj _ => .ok node.1
  | _ => .error ⟨node.1, .patternNotDict node.1⟩

variable {schema}

theorem leavesBelow_of_leaf {path : TreePath} (hleaf : isLeafAt schema path = true) (value : Json) :
    leavesBelow schema path value = [(path, value)] := by
  have hchildren : value.children.flatMap (Json.walkChild (fun path _ _ => !isLeafAt schema path) path) = [] := by
    rw [List.flatMap_eq_nil_iff]
    intro entry _
    simp [Json.walkChild, hleaf]
  unfold leavesBelow
  rw [Json.walk_eq, hchildren]
  simp [hleaf]

theorem leavesBelow_of_not_leaf {path : TreePath} (hleaf : isLeafAt schema path = false) (value : Json) :
    leavesBelow schema path value =
      value.children.flatMap fun entry => leavesBelow schema (path.child entry.1) entry.2 := by
  unfold leavesBelow
  rw [Json.walk_eq, List.filter_cons, hleaf, List.filter_flatMap]
  simp only [Bool.false_eq_true, if_false]
  apply List.flatMap_congr
  intro entry _
  simp [Json.walkChild, hleaf]

/-- The search goes through the topmost leaves in turn. -/
theorem places_ofNode (value : Json) : ∀ (path : TreePath) (ancestors : List Fields),
    (ofNode schema path ancestors value).map (List.map Pattern.path) =
      (leavesBelow schema path value).mapM placeOf := by
  induction value using Json.children_induction with
  | step value ih =>
    intro path ancestors
    cases hleaf : isLeafAt schema path with
    | true =>
      have hcontains : schema.leaves.contains path.generalize = true := hleaf
      rw [leavesBelow_of_leaf hleaf]
      cases value with
      | obj fields => simp only [ofNode, hcontains, if_true]; rfl
      | _ => simp only [ofNode, hcontains, if_true]; rfl
    | false =>
      rw [leavesBelow_of_not_leaf hleaf, ofNode_eq_of_not_leaf hleaf]
      apply Except.map_mapM_flatten
      intro entry hentry
      exact ih entry.1 entry.2 hentry (path.child entry.1) (ancestorsBelow path ancestors value)

theorem placeOf_ok {node : TreePath × Json} : (∃ place, placeOf node = .ok place) ↔ ∃ fields, node.2 = .obj fields := by
  obtain ⟨path, value⟩ := node
  cases value <;> simp [placeOf]

theorem placeOf_error {node : TreePath × Json} {fault : SpecFault} : placeOf node = .error fault ↔
    (¬ ∃ fields, node.2 = .obj fields) ∧ fault = ⟨node.1, .patternNotDict node.1⟩ := by
  obtain ⟨path, value⟩ := node
  cases value <;> simp [placeOf, eq_comm]

theorem places_ofSpec (spec : Json) :
    (ofSpec schema spec).map (List.map Pattern.path) = (topmostLeaves schema spec).mapM placeOf :=
  places_ofNode spec .root []

theorem ofSpec_ok_iff {spec : Json} : (∃ found, ofSpec schema spec = .ok found) ↔
    ∀ node ∈ topmostLeaves schema spec, ∃ fields, node.2 = .obj fields := by
  have hplaces := Except.mapM_isOk placeOf (topmostLeaves schema spec)
  simp only [← places_ofSpec, Except.map_eq_ok, placeOf_ok] at hplaces
  rw [← hplaces]
  constructor
  · intro h
    obtain ⟨found, h⟩ := h
    exact ⟨_, found, h, rfl⟩
  · intro h
    obtain ⟨_, found, h, -⟩ := h
    exact ⟨found, h⟩

theorem ofSpec_error_iff {spec : Json} {fault : SpecFault} : ofSpec schema spec = .error fault ↔
    ∃ earlier node later, topmostLeaves schema spec = earlier ++ node :: later ∧
      (∀ other ∈ earlier, ∃ fields, other.2 = .obj fields) ∧ (¬ ∃ fields, node.2 = .obj fields) ∧
      fault = ⟨node.1, .patternNotDict node.1⟩ := by
  have hplaces := @Except.mapM_eq_error _ _ _ placeOf fault (topmostLeaves schema spec)
  simp only [← places_ofSpec, Except.map_eq_error, placeOf_ok, placeOf_error] at hplaces
  exact hplaces

/-! ## In a valid specification -/

theorem isNode_of_mem_topmostLeaves {spec : Json} {node : TreePath × Json} (h : node ∈ topmostLeaves schema spec) :
    spec.IsNode node.1 node.2 ∧ isLeafAt schema node.1 = true := by
  obtain ⟨hwalk, hleaf⟩ := List.mem_filter.mp h
  have hreached := Json.mem_walk.mp hwalk
  exact ⟨hreached.mono fun _ _ _ _ => trivial, hleaf⟩

variable {document spec : Json} {isFile : String → Bool} {before after : Diagnosis}

/-- A list at a leaf of a valid specification has no assertion that asks for a mapping. -/
theorem list_at_leaf (hcompile : Schema.compile document = .ok schema)
    (hvalid : Validate.run schema isFile before spec = .ok after) {path : TreePath} {items : List Json}
    (hmem : (path, .arr items) ∈ topmostLeaves schema spec) :
    ∀ rule ∈ Validate.rulesAt schema path, ∃ each, rule.assertion = .eachValue each := by
  obtain ⟨hnode, hleaf⟩ := isNode_of_mem_topmostLeaves hmem
  have hdescribed := (Schema.closed_of_compile hcompile).leaves hleaf
  have hsound := (Validate.sound_of_described hcompile hvalid hnode rfl hdescribed).2
  intro rule hrule
  have hholds := hsound.satisfied rule hrule
  cases hassertion : rule.assertion with
  | eachValue each => exact ⟨each, rfl⟩
  | exactFields fields =>
    rw [hassertion] at hholds
    obtain ⟨_, h, -⟩ := hholds
    cases h
  | exactKeys keys =>
    rw [hassertion] at hholds
    obtain ⟨_, h, -⟩ := hholds
    cases h

/-- **Expansion of valid specifications.** The search for patterns succeeds exactly when all topmost nodes at
leaves are mappings; it fails at the first that is not. In a valid specification that is a scalar, or
a list whose leaf has no assertion that asks for a mapping. A run finds a specification at fault for this
reason only. -/
theorem expands_unless_misplaced (hcompile : Schema.compile document = .ok schema)
    (hvalid : Validate.run schema isFile before spec = .ok after) :
    ((∃ found, ofSpec schema spec = .ok found) ↔
      ∀ node ∈ topmostLeaves schema spec, ∃ fields, node.2 = .obj fields) ∧
    (∀ fault, ofSpec schema spec = .error fault ↔
      ∃ earlier node later, topmostLeaves schema spec = earlier ++ node :: later ∧
        (∀ other ∈ earlier, ∃ fields, other.2 = .obj fields) ∧ (¬ ∃ fields, node.2 = .obj fields) ∧
        fault = ⟨node.1, .patternNotDict node.1⟩) ∧
    (∀ node ∈ topmostLeaves schema spec, (∃ fields, node.2 = .obj fields) ∨ node.2.isContainer = false ∨
      ∃ items, node.2 = .arr items ∧
        ∀ rule ∈ Validate.rulesAt schema node.1, ∃ each, rule.assertion = .eachValue each) ∧
    ∀ (options : Options) (read : String → List String → Except RunFault String) (σ : Type) (deliver : Sink (StateM σ)),
      (∀ reference fault, read reference options.templateDirs ≠ .error (.spec fault)) →
      (∀ artifact s fault, (deliver artifact s).1 ≠ .error (.spec fault)) →
      ∀ s fault, (Generate.runOn schema options read deliver spec s).1.2 = .error (.spec fault) ↔
        ofSpec schema spec = .error fault := by
  refine ⟨ofSpec_ok_iff, fun fault => ofSpec_error_iff, ?_, ?_⟩
  · intro node hmem
    obtain ⟨path, value⟩ := node
    cases value with
    | obj fields => exact Or.inl ⟨fields, rfl⟩
    | arr items => exact Or.inr (Or.inr ⟨items, rfl, list_at_leaf hcompile hvalid hmem⟩)
    | _ => exact Or.inr (Or.inl rfl)
  · intro options read σ deliver hread hdeliver s fault
    exact Generate.runOn_spec_iff hread hdeliver s

end

/-- A document with a leaf at the items under `cases`, with what it compiles to. -/
def casesDocument : Json := .obj [("/", .obj [("/cases/*", .obj [("path", .str "x"), ("template", .str "y")])])]

def casesSchema : Schema :=
  ⟨⟨[([], []), ([.ofKey "cases"], []), ([.ofKey "cases", .wildcard], [])]⟩, [],
    ⟨[([.ofKey "cases", .wildcard], ⟨some "x", some (.inline "y"), .generate, [], []⟩)]⟩, ⟨[]⟩⟩

def mappedSpec : Json := .obj [("cases", .arr [.obj [("v", .num (.int 1))], .obj []])]

theorem mapped_spec_expands : ∃ after,
    Schema.compile casesDocument = .ok casesSchema ∧
    Validate.run casesSchema (fun _ => false) .fresh mappedSpec = .ok after ∧
    ∃ found, ofSpec casesSchema mappedSpec = .ok found := by
  have hcompile : Schema.compile casesDocument = .ok casesSchema := rfl
  have hvalid : Validate.run casesSchema (fun _ => false) .fresh mappedSpec = .ok _ := rfl
  refine ⟨_, hcompile, hvalid, (expands_unless_misplaced hcompile hvalid).1.mpr ?_⟩
  have hleaves : topmostLeaves casesSchema mappedSpec =
      [([.ofKey "cases", .index 0], .obj [("v", .num (.int 1))]), ([.ofKey "cases", .index 1], .obj [])] := rfl
  rw [hleaves]
  simp

def flatSpec : Json := .obj [("cases", .arr [.str "flat"])]

/-- A text in place of the mapping is not looked at by the validator, and it is no pattern. -/
theorem flat_item_not_expanded : ∃ after,
    Schema.compile casesDocument = .ok casesSchema ∧
    Validate.run casesSchema (fun _ => false) .fresh flatSpec = .ok after ∧
    ofSpec casesSchema flatSpec =
      .error ⟨[.ofKey "cases", .index 0], .patternNotDict [.ofKey "cases", .index 0]⟩ :=
  ⟨_, rfl, rfl, rfl⟩

end Pattern

end TestMatrix
