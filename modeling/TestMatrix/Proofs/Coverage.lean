import TestMatrix.Proofs.Compiled
import TestMatrix.Proofs.Search
import TestMatrix.Proofs.Validation

/-!
# What validation covers

The validator leaves out children, and the search for patterns does not. In a compiled schema a
described path lies below described paths only, so no list or mapping that the schema describes is
left out, and every pattern has been visited. A scalar is never visited, whatever is said of its path.
-/

namespace TestMatrix

/-- A node of a document with its concrete path. -/
def Json.IsNode (document : Json) : TreePath → Json → Prop := Reached (fun _ _ _ => True) .root document

theorem Json.Reached.isContainer {enter : TreePath → Segment → Json → Prop} {start path : TreePath}
    {top value : Json} (htop : top.isContainer = true)
    (henter : ∀ path segment child, enter path segment child → child.isContainer = true)
    (h : Reached enter start top path value) : value.isContainer = true := by
  cases h with
  | top => exact htop
  | child _ _ h => exact henter _ _ _ h

namespace Validate

section
variable {schema : Schema} {spec : Json}

/-- The described lists and mappings are visited, as all nodes above them are. -/
theorem visited_of_described (hclosed : schema.Closed) (honoured : String → Prop) {path : TreePath}
    {value : Json} (h : spec.IsNode path value) :
    value.isContainer = true → schema.rules.contains path.generalize = true →
      Visited honoured schema spec path value := by
  induction h with
  | top => exact fun _ _ => .top
  | @child path value segment child _ hmem _ ih =>
    intro hcontainer hdescribed
    have hparent : value.isContainer = true := by
      by_contra hscalar
      rw [Json.children_eq_nil (Bool.eq_false_iff.mpr hscalar)] at hmem
      cases hmem
    have habove : schema.rules.contains path.generalize = true :=
      hclosed.above (TreePath.generalize_prefix (TreePath.prefix_child path segment)) hdescribed
    refine .child (ih hparent habove) hmem ⟨hcontainer, fun hexempt => ?_⟩
    rw [Table.contains, hexempt.1] at hdescribed
    cases hdescribed

theorem no_leaf_below (hclosed : schema.Closed) {path below : TreePath} (hbelow : path <+: below)
    (hpath : schema.rules.contains path.generalize = false) :
    schema.leaves.contains below.generalize = false := by
  rw [Bool.eq_false_iff]
  intro hleaf
  rw [hclosed.above (TreePath.generalize_prefix hbelow) (hclosed.leaves hleaf)] at hpath
  cases hpath

variable {document : Json} {isFile : String → Bool} {before after : Diagnosis}

/-- Every described list or mapping of a valid specification is visited and sound. -/
theorem sound_of_described (hcompile : Schema.compile document = .ok schema)
    (hvalid : run schema isFile before spec = .ok after) {path : TreePath} {value : Json}
    (hnode : spec.IsNode path value) (hcontainer : value.isContainer = true)
    (hdescribed : schema.rules.contains path.generalize = true) :
    Visited IsPlainKey schema spec path value ∧ Sound schema isFile path value := by
  have hclosed := Schema.closed_of_compile hcompile
  have hvisited := visited_of_described hclosed IsPlainKey hnode hcontainer hdescribed
  exact ⟨hvisited, (run_ok_iff.mp ⟨after, hvalid⟩).2 path value hvisited⟩

/-- In a valid specification the described nodes that are visited are the lists and mappings among
them, and these satisfy every assertion made for them. -/
theorem described_containers_satisfy (hcompile : Schema.compile document = .ok schema)
    (hvalid : run schema isFile before spec = .ok after) :
    ∀ path value rules, spec.IsNode path value → schema.rules.get? path.generalize = some rules →
      (Visited IsPlainKey schema spec path value ↔ value.isContainer = true) ∧
      (value.isContainer = true → ∀ rule ∈ rules, rule.assertion.Holds isFile value) := by
  intro path value rules hnode hrules
  have hroot := (run_ok_iff.mp ⟨after, hvalid⟩).1
  have hdescribed : schema.rules.contains path.generalize = true := by rw [Table.contains, hrules]; rfl
  have hsound := sound_of_described hcompile hvalid hnode
  refine ⟨⟨Json.Reached.isContainer hroot fun _ _ _ h => h.1, fun h => (hsound h hdescribed).1⟩, ?_⟩
  intro hcontainer rule hmem
  refine (hsound hcontainer hdescribed).2.satisfied rule ?_
  rw [rulesAt, hrules]
  exact hmem

/-- A document that asks the value under `a` for the key `x`, with what it compiles to. -/
def keyedDocument : Json := .obj [("/a", .obj [("has_keys", .arr [.str "x"])])]

def keyedSchema : Schema :=
  ⟨⟨[([], []), ([.ofKey "a"], [⟨.exactKeys ["x"], .arr [.str "x"]⟩])]⟩, [], ⟨[]⟩, ⟨[]⟩⟩

theorem keyed_mapping_satisfies : ∃ after,
    Schema.compile keyedDocument = .ok keyedSchema ∧
    run keyedSchema (fun _ => false) .fresh (.obj [("a", .obj [("x", .null)])]) = .ok after ∧
    ∀ rule ∈ rulesAt keyedSchema [.ofKey "a"], rule.assertion.Holds (fun _ => false) (.obj [("x", .null)]) := by
  refine ⟨_, rfl, rfl, ?_⟩
  have hnode : Json.IsNode (.obj [("a", .obj [("x", .null)])]) [.ofKey "a"] (.obj [("x", .null)]) :=
    @Json.Reached.child _ _ _ _ _ (.ofKey "a") _ .top (List.mem_cons_self ..) trivial
  have hcompile : Schema.compile keyedDocument = .ok keyedSchema := rfl
  have hvalid : run keyedSchema (fun _ => false) .fresh (.obj [("a", .obj [("x", .null)])]) = .ok _ := rfl
  exact (described_containers_satisfy hcompile hvalid _ _ _ hnode rfl).2 rfl

/-- A number in place of the mapping is not held against the assertion, and the specification is valid. -/
theorem keyed_scalar_not_held : ∃ after,
    Schema.compile keyedDocument = .ok keyedSchema ∧
    run keyedSchema (fun _ => false) .fresh (.obj [("a", .num (.int 1))]) = .ok after ∧
    ∃ path value rule, Json.IsNode (.obj [("a", .num (.int 1))]) path value ∧
      rule ∈ rulesAt keyedSchema path ∧ ¬ rule.assertion.Holds (fun _ => false) value := by
  refine ⟨_, rfl, rfl, [.ofKey "a"], .num (.int 1), ⟨.exactKeys ["x"], .arr [.str "x"]⟩, ?_, ?_, ?_⟩
  · exact @Json.Reached.child _ _ _ _ _ (.ofKey "a") _ .top (List.mem_cons_self ..) trivial
  · exact List.mem_singleton.mpr rfl
  · rintro ⟨fields, h, -⟩
    cases h

theorem sound_of_found (hcompile : Schema.compile document = .ok schema)
    (hvalid : run schema isFile before spec = .ok after) {found : List Pattern}
    (hfound : Pattern.ofSpec schema spec = .ok found) {pattern : Pattern} (hmem : pattern ∈ found) :
    ∃ fields, spec.IsNode pattern.path (.obj fields) ∧ pattern.IsAt schema pattern.path fields ∧
      Visited IsPlainKey schema spec pattern.path (.obj fields) ∧
      Sound schema isFile pattern.path (.obj fields) := by
  obtain ⟨place, fields, hnode, hat⟩ := Pattern.isAt_of_mem_ofNode spec hfound pattern hmem
  obtain rfl := hat.path
  have hdescribed := (Schema.closed_of_compile hcompile).leaves hat.isLeaf
  exact ⟨fields, hnode, hat, sound_of_described hcompile hvalid hnode rfl hdescribed⟩

/-- In a valid specification every pattern that the search finds was visited, as the mapping it is,
and satisfies every assertion at its leaf. The walk passes over no list or mapping with a leaf below. -/
theorem patterns_visited (hcompile : Schema.compile document = .ok schema)
    (hvalid : run schema isFile before spec = .ok after) :
    (∀ found, Pattern.ofSpec schema spec = .ok found → ∀ pattern ∈ found, ∃ fields rules,
      pattern.IsAt schema pattern.path fields ∧
      Visited IsPlainKey schema spec pattern.path (.obj fields) ∧
      schema.rules.get? pattern.leafPath = some rules ∧
      ∀ rule ∈ rules, rule.assertion.Holds isFile (.obj fields)) ∧
    ∀ path segment child, child.isContainer = true →
      isPassedOver schema (rulesAt schema path) path segment child = true →
      ∀ below node, Json.Reached (fun _ _ _ => True) (path.child segment) child below node →
        schema.leaves.contains below.generalize = false := by
  have hclosed := Schema.closed_of_compile hcompile
  constructor
  · intro found hfound pattern hmem
    obtain ⟨fields, -, hat, hvisited, hsound⟩ := sound_of_found hcompile hvalid hfound hmem
    obtain ⟨rules, hrules⟩ := Option.isSome_iff_exists.mp (hclosed.leaves hat.isLeaf)
    refine ⟨fields, rules, hat, hvisited, hat.leafPath ▸ hrules, fun rule hrule => ?_⟩
    refine hsound.satisfied rule ?_
    rw [rulesAt, hrules]
    exact hrule
  · intro path segment child hcontainer hpassed below node hreached
    refine no_leaf_below hclosed hreached.start_prefix ?_
    rw [isPassedOver, hcontainer] at hpassed
    simp only [Bool.not_true, Bool.false_or, Bool.and_eq_true, Bool.not_eq_true'] at hpassed
    exact hpassed.1

end

/-- A document with a leaf at the items under `cases`, with what it compiles to. -/
def listedDocument : Json :=
  .obj [("/cases/*", .obj [("has_keys", .arr [.str "size"]), ("path", .str "out"), ("template", .str "text")])]

def listedSchema : Schema :=
  ⟨⟨[([], []), ([.ofKey "cases"], []),
      ([.ofKey "cases", .wildcard], [⟨.exactKeys ["size"], .arr [.str "size"]⟩])]⟩, [],
    ⟨[([.ofKey "cases", .wildcard], ⟨some "out", some (.inline "text"), .generate, [], []⟩)]⟩, ⟨[]⟩⟩

def listedSpec : Json := .obj [("cases", .arr [.obj [("size", .num (.int 1))]])]

theorem listed_pattern_visited : ∃ after pattern,
    Schema.compile listedDocument = .ok listedSchema ∧
    run listedSchema (fun _ => false) .fresh listedSpec = .ok after ∧
    Pattern.ofSpec listedSchema listedSpec = .ok [pattern] ∧
    ∃ fields, Visited IsPlainKey listedSchema listedSpec pattern.path (.obj fields) := by
  refine ⟨_, _, rfl, rfl, rfl, ?_⟩
  have hcompile : Schema.compile listedDocument = .ok listedSchema := rfl
  have hvalid : run listedSchema (fun _ => false) .fresh listedSpec = .ok _ := rfl
  obtain ⟨fields, _, _, hvisited, _⟩ :=
    (patterns_visited hcompile hvalid).1 _ rfl _ (List.mem_singleton.mpr rfl)
  exact ⟨fields, hvisited⟩

end Validate

end TestMatrix
