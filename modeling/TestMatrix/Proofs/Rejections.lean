import TestMatrix.Proofs.Coverage
import TestMatrix.Proofs.DistinctKeys
import TestMatrix.Proofs.Tabulation

/-!
# What a rejection tells

A walk that stops has noted the node it looked at and the expectation it held a node against last. The
node is always the one that fails. The expectation is the one that fails if an assertion does. If none
does, it is one that has been met before, by another node or in an earlier walk.
-/

namespace TestMatrix

/-- What is collected before an element was collected from the elements up to one of them. -/
theorem flatMap_eq_append_cons {α β : Type} {f : α → List β} {b : β} {later : List β} :
    ∀ {list : List α} {earlier : List β}, list.flatMap f = earlier ++ b :: later →
      ∃ before a after here there, list = before ++ a :: after ∧ f a = here ++ b :: there ∧
        earlier = before.flatMap f ++ here
  | [], earlier, h => by simp at h
  | a :: rest, earlier, h => by
    rw [List.flatMap_cons] at h
    obtain ⟨more, hearlier, hrest⟩ | ⟨more, ha, hlater⟩ := List.append_eq_append_iff.mp h
    · obtain ⟨before, a', after, here, there, rfl, ha', rfl⟩ := flatMap_eq_append_cons hrest
      exact ⟨a :: before, a', after, here, there, rfl, ha', by rw [hearlier, List.flatMap_cons, List.append_assoc]⟩
    · cases more with
      | nil =>
        -- the element is the first one collected from the rest
        have hfirst : rest.flatMap f = [] ++ b :: later := hlater.symm
        obtain ⟨before, a', after, here, there, rfl, ha', hhere⟩ := flatMap_eq_append_cons hfirst
        refine ⟨a :: before, a', after, here, there, rfl, ha', ?_⟩
        rw [List.flatMap_cons, List.append_assoc, ← hhere, ha]
        simp
      | cons b' more =>
        cases hlater
        exact ⟨[], a, rest, earlier, more, rfl, ha, rfl⟩

/-! ## What checks report -/

/-- Whether a violation is one of a value, and not of the schema or of what the schema has no entry for. -/
def Violation.isOfValue : Violation → Bool
  | .noRule _ | .schemaNodeNotDict _ | .patternNotDict _ => false
  | _ => true

namespace Check

variable {isFile : String → Bool} {violation : Violation}

theorem isOfValue_of_expectDict {value : Json} (h : expectDict value = .error violation) :
    violation.isOfValue = true := by
  cases value <;> cases h <;> rfl

theorem isOfValue_of_exactKeys {expected : List String} {fields : Fields}
    (h : exactKeys expected fields = .error violation) : violation.isOfValue = true := by
  unfold exactKeys at h
  split at h
  · cases h; rfl
  · split at h <;> cases h
    rfl

theorem isOfValue_of_items {field : String} {allowed : List Json} : ∀ {list : List Json},
    items field allowed list = .error violation → violation.isOfValue = true
  | item :: rest, h => by
    rw [items] at h
    split at h
    · cases h; rfl
    · split at h
      · exact isOfValue_of_items h
      · cases h; rfl

theorem isOfValue_of_membership {field : String} {allowed : List Json} {value : Json}
    (h : membership field allowed value = .error violation) : violation.isOfValue = true := by
  unfold membership at h
  split at h
  · exact isOfValue_of_items h
  · split at h <;> cases h
    rfl

mutual
theorem isOfValue_of_predicate {field : String} {value : Json} : ∀ {rule : Predicate},
    predicate isFile field value rule = .error violation → violation.isOfValue = true
  | .nonEmptyString, h | .nonEmptyList, h | .nonEmptyDict, h | .existingFile, h => by
    unfold predicate at h
    split at h
    · split at h <;> cases h
      rfl
    · cases h; rfl
  | .integer, h => by
    unfold predicate at h
    split at h <;> cases h
    rfl
  | .oneOf allowed, h => isOfValue_of_membership (by rwa [predicate] at h)
  | .fields rules, h => by
    rw [predicate, Except.bind_eq_error] at h
    obtain h | ⟨fields, -, h⟩ := h
    · exact isOfValue_of_expectDict h
    · obtain h | ⟨_, -, h⟩ := Except.bind_eq_error.mp h
      · exact isOfValue_of_exactKeys h
      · exact isOfValue_of_predicates h
theorem isOfValue_of_predicates {fields : Fields} : ∀ {rules : List (String × Predicate)},
    predicates isFile fields rules = .error violation → violation.isOfValue = true
  | (name, rule) :: rest, h => by
    rw [predicates] at h
    split at h
    · obtain h | ⟨_, -, h⟩ := Except.bind_eq_error.mp h
      · exact isOfValue_of_predicate h
      · exact isOfValue_of_predicates h
    · obtain h | ⟨_, -, h⟩ := Except.bind_eq_error.mp h
      · cases h
      · exact isOfValue_of_predicates h
end

/-- A node that violates an assertion is at fault itself. -/
theorem isOfValue_of_assertion {value : Json} {demand : Assertion}
    (h : assertion isFile value demand = .error violation) : violation.isOfValue = true := by
  cases demand with
  | exactFields rules =>
    obtain h | ⟨fields, -, h⟩ := Except.bind_eq_error.mp h
    · exact isOfValue_of_expectDict h
    · obtain h | ⟨_, -, h⟩ := Except.bind_eq_error.mp h
      · exact isOfValue_of_exactKeys h
      · exact isOfValue_of_predicates h
  | exactKeys keys =>
    obtain h | ⟨fields, -, h⟩ := Except.bind_eq_error.mp h
    · exact isOfValue_of_expectDict h
    · exact isOfValue_of_exactKeys h
  | eachValue rule =>
    cases value with
    | obj fields =>
      obtain ⟨entry, -, hentry⟩ := Except.error_of_forM h
      exact isOfValue_of_predicate hentry
    | arr items =>
      obtain ⟨entry, -, hentry⟩ := Except.error_of_forM h
      exact isOfValue_of_predicate hentry
    | _ => cases h; rfl

end Check

namespace Validate

/-! ## Where a walk stops -/

section
variable {schema : Schema} {isFile : String → Bool} {path : TreePath} {value : Json} {violation : Violation}

/-- How a visited node fails: the schema has no entry for it, or a rule is the first that it violates. -/
inductive FailsAt (schema : Schema) (isFile : String → Bool) (path : TreePath) (value : Json) :
    Violation → Option Rule → Prop
  | undescribed : path ≠ .root → schema.rules.get? path.generalize = none →
    FailsAt schema isFile path value (.noRule path) none
  | violated {earlier later : List Rule} {rule : Rule} {violation : Violation} :
    rulesAt schema path = earlier ++ rule :: later → (∀ other ∈ earlier, other.assertion.Holds isFile value) →
    Check.assertion isFile value rule.assertion = .error violation →
    FailsAt schema isFile path value violation (some rule)

/-- A walk stops at the first visited node that is not sound. -/
structure StopsAt (schema : Schema) (isFile : String → Bool) (spec : Json) (earlier : List (TreePath × Json))
    (path : TreePath) (value : Json) (violation : Violation) (rule? : Option Rule) : Prop where
  reached : ∃ later, Json.walk (enters schema) .root spec = earlier ++ (path, value) :: later
  sound : ∀ node ∈ earlier, Sound schema isFile node.1 node.2
  fails : FailsAt schema isFile path value violation rule?

/-- A node with rules has an entry. -/
theorem get?_of_rulesAt_ne_nil (h : rulesAt schema path ≠ []) :
    schema.rules.get? path.generalize = some (rulesAt schema path) := by
  unfold rulesAt at h ⊢
  cases hentry : schema.rules.get? path.generalize with
  | some rules => rfl
  | none => rw [hentry] at h; exact absurd rfl h

theorem entry_failed : Demand.violation? schema isFile ⟨path, value, none⟩ = some violation ↔
    path ≠ .root ∧ schema.rules.get? path.generalize = none ∧ violation = .noRule path := by
  have hmet := @entry_met schema isFile path value
  simp only [Demand.violation?] at hmet ⊢
  split at hmet
  · next h =>
    rw [if_pos h]
    constructor
    · intro h; cases h
    · rintro ⟨hroot, hnone, -⟩
      obtain h | h := hmet.mp rfl
      · exact absurd h hroot
      · rw [hnone] at h; cases h
  · next h =>
    rw [if_neg h, Option.some_inj, eq_comm]
    have hunmet : ¬ (path = .root ∨ (schema.rules.get? path.generalize).isSome = true) := by
      intro hmeets
      cases hmet.mpr hmeets
    rw [not_or, Option.not_isSome_iff_eq_none] at hunmet
    constructor
    · intro h; exact ⟨hunmet.1, hunmet.2, h⟩
    · rintro ⟨-, -, h⟩; exact h

theorem rule_failed {rule : Rule} : Demand.violation? schema isFile ⟨path, value, some rule⟩ = some violation ↔
    Check.assertion isFile value rule.assertion = .error violation := by
  simp only [Demand.violation?]
  cases Check.assertion isFile value rule.assertion <;> simp

theorem failsAt_iff {rule? : Option Rule} : FailsAt schema isFile path value violation rule? ↔ ∃ here there,
    demandsOn schema (path, value) = here ++ ⟨path, value, rule?⟩ :: there ∧
    (∀ met ∈ here, met.violation? schema isFile = none) ∧
    Demand.violation? schema isFile ⟨path, value, rule?⟩ = some violation := by
  constructor
  · intro h
    cases h with
    | undescribed hroot hnone =>
      exact ⟨[], _, rfl, by simp, entry_failed.mpr ⟨hroot, hnone, rfl⟩⟩
    | @violated earlier later rule _ hrules hearlier hcheck =>
      refine ⟨⟨path, value, none⟩ :: earlier.map fun other => ⟨path, value, some other⟩,
        later.map fun other => ⟨path, value, some other⟩, ?_, ?_, rule_failed.mpr hcheck⟩
      · rw [demandsOn, hrules, List.map_append]; rfl
      · have hne : rulesAt schema path ≠ [] := by rw [hrules]; simp
        have hentry := get?_of_rulesAt_ne_nil hne
        refine List.forall_mem_cons.mpr ⟨entry_met.mpr (Or.inr (by rw [hentry]; rfl)), ?_⟩
        exact List.forall_mem_map.mpr fun other hother => rule_met.mpr (hearlier other hother)
  · rintro ⟨here, there, hdemands, hmet, hfailed⟩
    cases here with
    | nil =>
      cases hdemands
      obtain ⟨hroot, hnone, rfl⟩ := entry_failed.mp hfailed
      exact .undescribed hroot hnone
    | cons first here =>
      rw [demandsOn, List.cons_append, List.cons.injEq] at hdemands
      obtain ⟨earlier, others, hrules, hearlier, hothers⟩ := List.map_eq_append_iff.mp hdemands.2
      obtain ⟨rule, later, rfl, hrule, -⟩ := List.map_eq_cons_iff.mp hothers
      cases hrule
      refine .violated hrules (fun other hother => ?_) (rule_failed.mp hfailed)
      have hmem : (⟨path, value, some other⟩ : Demand) ∈ here := by
        rw [← hearlier]
        exact List.mem_map.mpr ⟨other, hother, rfl⟩
      exact rule_met.mp (hmet _ (List.mem_cons_of_mem _ hmem))

/-! ## What has been noted there -/

theorem noted_rules (diagnosis : Diagnosis) (path : TreePath) (value : Json) (rules : List Rule) :
    noted diagnosis (rules.map fun rule => ⟨path, value, some rule⟩) =
      { diagnosis with expectation := (rules.getLast?.map Rule.expectation).or diagnosis.expectation } := by
  induction rules generalizing diagnosis with
  | nil => rfl
  | cons rule rest ih =>
    rw [List.map_cons, noted, List.foldl_cons, ← noted, ih, List.getLast?_cons]
    cases rest.getLast? <;> rfl

/-- The expectation that a node was held against last, or the one noted before all. -/
def lastHeld (schema : Schema) (before : Diagnosis) (nodes : List (TreePath × Json)) : Option Json :=
  ((nodes.flatMap fun node => rulesAt schema node.1).getLast?.map Rule.expectation).or before.expectation

theorem expectation_noted (schema : Schema) (nodes : List (TreePath × Json)) (before : Diagnosis) :
    (noted before (nodes.flatMap (demandsOn schema))).expectation = lastHeld schema before nodes := by
  induction nodes generalizing before with
  | nil => rfl
  | cons node rest ih =>
    have hnode : (noted before (demandsOn schema node)).expectation =
        ((rulesAt schema node.1).getLast?.map Rule.expectation).or before.expectation := by
      rw [demandsOn, noted, List.foldl_cons, ← noted, noted_rules]
      rfl
    rw [List.flatMap_cons, noted_append, ih, lastHeld, hnode, lastHeld, List.flatMap_cons, List.getLast?_append,
      Option.map_or, Option.or_assoc]

theorem node_of_mem_demandsOn {demand : Demand} (h : demand ∈ demandsOn schema (path, value)) :
    demand.path = path ∧ demand.value = value := by
  rcases List.mem_cons.mp h with rfl | h
  · exact ⟨rfl, rfl⟩
  · obtain ⟨rule, -, rfl⟩ := List.mem_map.mp h
    exact ⟨rfl, rfl⟩

theorem note_of_failed {rule? : Option Rule} {here there : List Demand} (diagnosis : Diagnosis)
    (h : demandsOn schema (path, value) = here ++ ⟨path, value, rule?⟩ :: there) :
    Demand.note ⟨path, value, rule?⟩ (noted diagnosis here) =
      ⟨some path, value, (rule?.map Rule.expectation).or diagnosis.expectation⟩ := by
  cases here with
  | nil => cases h; rfl
  | cons first here =>
    rw [demandsOn, List.cons_append, List.cons.injEq] at h
    obtain ⟨earlier, others, -, rfl, hothers⟩ := List.map_eq_append_iff.mp h.2
    obtain ⟨rule, later, rfl, hrule, -⟩ := List.map_eq_cons_iff.mp hothers
    cases hrule
    rw [← h.1, noted, List.foldl_cons, ← noted, noted_rules]
    rfl

/-- A walk that fails stops at one node. It notes that node, and the expectation that the node fails or else
the one held last. -/
theorem run_eq_error {before : Diagnosis} {spec : Json} {rejection : Rejection} (hroot : spec.isContainer = true) :
    run schema isFile before spec = .error rejection ↔ ∃ earlier path value violation rule?,
      StopsAt schema isFile spec earlier path value violation rule? ∧ rejection =
        ⟨⟨path, violation⟩, ⟨some path, value, (rule?.map Rule.expectation).or (lastHeld schema before earlier)⟩⟩ := by
  rw [run, if_pos hroot, visit_eq_meet, meet_eq_error, demands]
  constructor
  · rintro ⟨met, demand, later, violation, hdemands, hmet, hfailed, rfl⟩
    obtain ⟨earlier, ⟨path, value⟩, rest, here, there, hwalk, hnode, rfl⟩ := flatMap_eq_append_cons hdemands
    obtain ⟨place, held, rule?⟩ := demand
    have hmem : (⟨place, held, rule?⟩ : Demand) ∈ demandsOn schema (path, value) := hnode ▸ List.mem_append_cons_self
    obtain ⟨rfl, rfl⟩ := node_of_mem_demandsOn hmem
    obtain ⟨hbefore, hhere⟩ := List.forall_mem_append.mp hmet
    refine ⟨earlier, place, held, violation, rule?, ⟨⟨rest, hwalk⟩, fun node hmem => ?_, ?_⟩, ?_⟩
    · exact demandsOn_met.mp fun demand hdemand => hbefore demand (List.mem_flatMap.mpr ⟨node, hmem, hdemand⟩)
    · exact failsAt_iff.mpr ⟨here, there, hnode, hhere, hfailed⟩
    · rw [noted_append, note_of_failed _ hnode, expectation_noted]
  · rintro ⟨earlier, path, value, violation, rule?, ⟨⟨later, hwalk⟩, hsound, hfails⟩, rfl⟩
    obtain ⟨here, there, hnode, hhere, hfailed⟩ := failsAt_iff.mp hfails
    have hbefore : ∀ demand ∈ earlier.flatMap (demandsOn schema), demand.violation? schema isFile = none := by
      intro demand hmem
      obtain ⟨node, hnode, hdemand⟩ := List.mem_flatMap.mp hmem
      exact demandsOn_met.mpr (hsound node hnode) demand hdemand
    refine ⟨earlier.flatMap (demandsOn schema) ++ here, ⟨path, value, rule?⟩,
      there ++ later.flatMap (demandsOn schema), violation, ?_, List.forall_mem_append.mpr ⟨hbefore, hhere⟩,
      hfailed, ?_⟩
    · rw [hwalk, List.flatMap_append, List.flatMap_cons, hnode]
      simp
    · rw [noted_append, note_of_failed _ hnode, expectation_noted]

end

/-! ## Rejections under a compiled schema -/

section
variable {document : Json} {schema : Schema} {isFile : String → Bool} {before : Diagnosis} {spec : Json}
  {rejection : Rejection}

/-- The causes of a rejection, with what is noted then: a root that is neither list nor mapping, a node
without an entry, or the first of a node's rules that it violates. That rule is read from the assertion at
the same place among those written at the node's path, and its expectation is noted as it is written. -/
inductive Explained (document : Json) (schema : Schema) (isFile : String → Bool) : Rejection → Prop
  | scalarRoot {value : Json} {expectation : Option Json} : value.isContainer = false →
    Explained document schema isFile
      ⟨⟨.root, .expectedContainer value.typeName⟩, ⟨some .root, value, expectation⟩⟩
  | undescribed {path : TreePath} {value : Json} {expectation : Option Json} :
    path ≠ .root → schema.rules.get? path.generalize = none →
    Explained document schema isFile ⟨⟨path, .noRule path⟩, ⟨some path, value, expectation⟩⟩
  | violated {path : TreePath} {value : Json} {earlier later : List Rule} {rule : Rule} {kind : AssertionKind}
    {violation : Violation} : schema.rules.get? path.generalize = some (earlier ++ rule :: later) →
    (∀ other ∈ earlier, other.assertion.Holds isFile value) →
    Check.assertion isFile value rule.assertion = .error violation →
    (Schema.assertionsAt document path.generalize)[earlier.length]? = some (kind, rule.expectation) →
    Schema.assertion schema.references path.generalize kind rule.expectation = .ok rule.assertion →
    Explained document schema isFile ⟨⟨path, violation⟩, ⟨some path, value, some rule.expectation⟩⟩

theorem StopsAt.isNode {earlier : List (TreePath × Json)} {path : TreePath} {value : Json} {violation : Violation}
    {rule? : Option Rule} (h : StopsAt schema isFile spec earlier path value violation rule?) :
    spec.IsNode path value := by
  obtain ⟨later, hwalk⟩ := h.reached
  have hmem : (path, value) ∈ Json.walk (enters schema) .root spec := hwalk ▸ List.mem_append_cons_self
  exact (Json.mem_walk.mp hmem).mono fun _ _ _ _ => trivial

theorem rules_written (hcompile : Schema.compile document = .ok schema) {path : TreePath} {rules : List Rule}
    (hrules : schema.rules.get? path.generalize = some rules) :
    List.Forall₂ (fun written rule => rule.expectation = written.2 ∧
        Schema.assertion schema.references path.generalize written.1 written.2 = .ok rule.assertion)
      (Schema.assertionsAt document path.generalize) rules :=
  (Schema.tablesOf hcompile).rules _ _ hrules

/-- **A rejection points at the failure.** It notes the node that fails, which is the only one at its path,
and if the node violates an assertion, the expectation of the first that it violates. -/
theorem rejection_points_at_failure (hcompile : Schema.compile document = .ok schema)
    (h : run schema isFile before spec = .error rejection) :
    rejection.diagnosis.path = some rejection.fault.path ∧
    spec.IsNode rejection.fault.path rejection.diagnosis.value ∧
    (spec.hasDistinctKeys = true → ∀ other, spec.IsNode rejection.fault.path other →
      other = rejection.diagnosis.value) ∧
    Explained document schema isFile rejection := by
  cases hroot : spec.isContainer with
  | false =>
    rw [run, hroot, if_neg (by simp)] at h
    cases h
    refine ⟨rfl, .top, fun hdistinct other hother => ?_, .scalarRoot hroot⟩
    exact (Json.Reached.unique hdistinct .top hother).symm
  | true =>
    obtain ⟨earlier, path, value, violation, rule?, hstops, rfl⟩ := (run_eq_error hroot).mp h
    have hnode := hstops.isNode
    refine ⟨rfl, hnode, fun hdistinct other hother => (hnode.unique hdistinct hother).symm, ?_⟩
    cases hstops.fails with
    | undescribed hpath hnone => exact .undescribed hpath hnone
    | @violated met others rule _ hrules hmet hcheck =>
      have hentry : schema.rules.get? path.generalize = some (met ++ rule :: others) := by
        rw [← hrules]
        exact get?_of_rulesAt_ne_nil (by rw [hrules]; simp)
      have hplace : (met ++ rule :: others)[met.length]? = some rule := by simp
      obtain ⟨⟨kind, expectation⟩, hwritten, rfl, hread⟩ :=
        getElem?_of_forall₂_right (rules_written hcompile hentry) hplace
      exact .violated hentry hmet hcheck hwritten hread

/-- A document with two assertions for a case, of which one is written with a reference, and what it compiles to. -/
def sizedDocument : Json :=
  .obj [("#sizes", .arr [.str "small"]), ("/cases/*", .obj [("has_keys", .arr [.str "size"]),
    ("matches", .obj [("size", .str "@sizes")])])]

def sizedSchema : Schema :=
  ⟨⟨[([], []), ([.ofKey "cases"], []), ([.ofKey "cases", .wildcard],
      [⟨.exactKeys ["size"], .arr [.str "size"]⟩,
        ⟨.exactFields [("size", .oneOf [.str "small"])], .obj [("size", .str "@sizes")]⟩])]⟩,
    [("sizes", .arr [.str "small"])], ⟨[]⟩, ⟨[([.ofKey "cases", .wildcard, .ofKey "size"], [.str "small"])]⟩⟩

def sizedSpec : Json :=
  .obj [("cases", .arr [.obj [("size", .str "small")], .obj [("size", .str "huge")]])]

/-- The second case meets the first assertion and not the second. -/
theorem huge_case_pointed_at : Schema.compile sizedDocument = .ok sizedSchema ∧
    ∃ rejection, run sizedSchema (fun _ => false) .fresh sizedSpec = .error rejection ∧
      rejection.fault.path = [.ofKey "cases", .index 1] ∧
      rejection.diagnosis.expectation = some (.obj [("size", .str "@sizes")]) ∧
      ∀ other, sizedSpec.IsNode [.ofKey "cases", .index 1] other → other = .obj [("size", .str "huge")] := by
  have hcompile : Schema.compile sizedDocument = .ok sizedSchema := rfl
  have hrun : run sizedSchema (fun _ => false) .fresh sizedSpec = .error _ := rfl
  obtain ⟨-, -, honly, -⟩ := rejection_points_at_failure hcompile hrun
  exact ⟨hcompile, _, hrun, rfl, rfl, honly rfl⟩

/-! ## Expectations that are left over -/

theorem expectations_written (hcompile : Schema.compile document = .ok schema) {path : TreePath}
    (hdescribed : (schema.rules.get? path.generalize).isSome = true) :
    (rulesAt schema path).map Rule.expectation = (Schema.assertionsAt document path.generalize).map Prod.snd := by
  obtain ⟨rules, hrules⟩ := Option.isSome_iff_exists.mp hdescribed
  rw [rulesAt, hrules, Option.getD_some, eq_comm, ← List.forall₂_eq_eq_eq, List.forall₂_map_left_iff,
    List.forall₂_map_right_iff]
  exact (rules_written hcompile hrules).imp fun _ _ h => h.1.symm

/-- The expectations that these nodes are held against, as they are written. -/
def expectationsOn (document : Json) (nodes : List (TreePath × Json)) : List Json :=
  nodes.flatMap fun node => (Schema.assertionsAt document node.1.generalize).map Prod.snd

theorem lastHeld_eq (hcompile : Schema.compile document = .ok schema) {nodes : List (TreePath × Json)}
    (hsound : ∀ node ∈ nodes, Sound schema isFile node.1 node.2) :
    lastHeld schema before nodes = (expectationsOn document nodes).getLast?.or before.expectation := by
  have hroot := (Schema.closed_of_compile hcompile).root
  rw [lastHeld, ← List.getLast?_map, List.map_flatMap, expectationsOn]
  congr 2
  refine List.flatMap_congr fun node hmem => expectations_written hcompile ?_
  rcases (hsound node hmem).described with h | h
  · rw [h]; exact hroot
  · exact h

theorem getLast?_expectationsOn_eq_none {nodes : List (TreePath × Json)} :
    (expectationsOn document nodes).getLast? = none ↔
      ∀ node ∈ nodes, Schema.assertionsAt document node.1.generalize = [] := by
  rw [List.getLast?_eq_none_iff, expectationsOn, List.flatMap_eq_nil_iff]
  simp only [List.map_eq_nil_iff]

/-- **Without a failed assertion** the expectation of a rejection is not one of the node it names: it is the
last that a node visited before it has met, or else the one noted before. It is absent only if both are. -/
theorem expectation_left_over (hcompile : Schema.compile document = .ok schema)
    (h : run schema isFile before spec = .error rejection)
    (hcause : spec.isContainer = false ∨ ∃ path, rejection.fault.violation = .noRule path) :
    ∃ earlier later, Json.walk (enters schema) .root spec =
        earlier ++ (rejection.fault.path, rejection.diagnosis.value) :: later ∧
      (∀ node ∈ earlier, Sound schema isFile node.1 node.2) ∧
      rejection.diagnosis.expectation = (expectationsOn document earlier).getLast?.or before.expectation ∧
      (rejection.diagnosis.expectation = none ↔ before.expectation = none ∧
        ∀ node ∈ earlier, Schema.assertionsAt document node.1.generalize = []) := by
  have habsent : ∀ earlier, rejection.diagnosis.expectation =
      (expectationsOn document earlier).getLast?.or before.expectation →
        (rejection.diagnosis.expectation = none ↔ before.expectation = none ∧
          ∀ node ∈ earlier, Schema.assertionsAt document node.1.generalize = []) := by
    intro earlier hexpectation
    rw [hexpectation, Option.or_eq_none_iff, getLast?_expectationsOn_eq_none, and_comm]
  cases hroot : spec.isContainer with
  | false =>
    rw [run, hroot, if_neg (by simp)] at h
    cases h
    refine ⟨[], [], ?_, by simp, rfl, habsent [] rfl⟩
    rw [Json.walk_eq, Json.children_eq_nil hroot]
    rfl
  | true =>
    obtain ⟨earlier, path, value, violation, rule?, ⟨⟨later, hwalk⟩, hsound, hfails⟩, rfl⟩ := (run_eq_error hroot).mp h
    obtain hscalar | ⟨missing, hmissing⟩ := hcause
    · rw [hroot] at hscalar; cases hscalar
    cases hfails with
    | undescribed _ _ =>
      have hlast : lastHeld schema before earlier = _ := lastHeld_eq hcompile hsound
      exact ⟨earlier, later, hwalk, hsound, hlast, habsent earlier hlast⟩
    | violated _ _ hcheck =>
      -- no check reports a missing entry
      have hvalue := Check.isOfValue_of_assertion hcheck
      dsimp only at hmissing
      rw [hmissing] at hvalue
      cases hvalue

end

def siblingSpec : Json := .obj [("a", .obj [("x", .null)]), ("b", .arr [])]

/-- A mapping meets the assertion that is made for it, and the list beside it has no entry. -/
theorem sibling_expectation_left : Schema.compile keyedDocument = .ok keyedSchema ∧
    run keyedSchema (fun _ => false) .fresh siblingSpec =
      .error ⟨⟨[.ofKey "b"], .noRule [.ofKey "b"]⟩, ⟨some [.ofKey "b"], .arr [], some (.arr [.str "x"])⟩⟩ ∧
    ∃ earlier later, Json.walk (enters keyedSchema) .root siblingSpec = earlier ++ ([.ofKey "b"], .arr []) :: later ∧
      (expectationsOn keyedDocument earlier).getLast? = some (.arr [.str "x"]) := by
  have hcompile : Schema.compile keyedDocument = .ok keyedSchema := rfl
  have hrun : run keyedSchema (fun _ => false) .fresh siblingSpec =
    .error ⟨⟨[.ofKey "b"], .noRule [.ofKey "b"]⟩, ⟨some [.ofKey "b"], .arr [], some (.arr [.str "x"])⟩⟩ := rfl
  obtain ⟨earlier, later, hwalk, -, hexpectation, -⟩ := expectation_left_over hcompile hrun (Or.inr ⟨_, rfl⟩)
  refine ⟨hcompile, hrun, earlier, later, hwalk, ?_⟩
  exact (hexpectation.trans Option.or_none).symm

/-- The root meets its assertion, and the mapping below it has no entry. A number is validated afterwards. -/
theorem met_expectation_shown : ∃ schema rejection later,
    Schema.compile (.obj [("/", .obj [("has_keys", .arr [.str "a"])])]) = .ok schema ∧
    run schema (fun _ => false) .fresh (.obj [("a", .obj [])]) = .error rejection ∧
    rejection.fault.violation = .noRule [.ofKey "a"] ∧
    rejection.diagnosis.expectation = some (.arr [.str "a"]) ∧
    run schema (fun _ => false) rejection.diagnosis (.num (.int 5)) = .error later ∧
    later.fault.violation = .expectedContainer "number" ∧
    later.diagnosis.expectation = some (.arr [.str "a"]) :=
  ⟨_, _, _, rfl, rfl, rfl, rfl, rfl, rfl, rfl⟩

end Validate

end TestMatrix
