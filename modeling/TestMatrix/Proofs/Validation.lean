import TestMatrix.Proofs.Demands

/-!
# Valid specifications

Main statement: a specification is valid exactly when every node that the walk visits is described
by the schema and satisfies its assertions, and a refusal names the first demand that fails. Which
nodes are visited is said without the walk, by the children that are left out.
-/

namespace TestMatrix

namespace Validate

/-! ## Visited nodes -/

def ChecksEach (rules : List Rule) : Prop :=
  ∃ rule ∈ rules, ∃ each, rule.assertion = .eachValue each

def ListsKey (rules : List Rule) (key : String) : Prop :=
  ∃ rule ∈ rules, ∃ fields, rule.assertion = .exactFields fields ∧ key ∈ fields.map Prod.fst

/-- A child is left out when the schema has no entry for it and an assertion of its parent has checked
it: one about each value, or one that lists its key. The latter counts for the honoured keys only. -/
def Exempt (honoured : String → Prop) (schema : Schema) (path : TreePath) (segment : Segment) : Prop :=
  schema.rules.get? (path.child segment).generalize = none ∧
    (ChecksEach (rulesAt schema path) ∨
      ∃ key, honoured key ∧ segment = .ofKey key ∧ ListsKey (rulesAt schema path) key)

/-- The nodes visited: the root, and below a visited node each list and mapping that is not left
out. -/
def Visited (honoured : String → Prop) (schema : Schema) (spec : Json) : TreePath → Json → Prop :=
  Json.Reached (fun path segment child =>
    child.isContainer = true ∧ ¬ Exempt honoured schema path segment) .root spec

/-- All keys but the one that is read as the wildcard. -/
def IsPlainKey (key : String) : Prop := key ≠ Json.wildcard

/-- What a node must meet: an entry in the schema, which the root can do without, and every
assertion of that entry. -/
structure Sound (schema : Schema) (isFile : String → Bool) (path : TreePath) (value : Json) : Prop where
  described : path = .root ∨ (schema.rules.get? path.generalize).isSome = true
  satisfied : ∀ rule ∈ rulesAt schema path, rule.assertion.Holds isFile value

/-- A list or mapping under the key `*`, without an entry of its own, whose parent is visited and
lists that key. -/
structure HasStarredChild (schema : Schema) (spec : Json) (path : TreePath) (value child : Json) :
    Prop where
  visited : Visited (fun _ => True) schema spec path value
  isChild : (.wildcard, child) ∈ value.children
  isContainer : child.isContainer = true
  undescribed : schema.rules.get? (path.child .wildcard).generalize = none
  unchecked : ¬ ChecksEach (rulesAt schema path)
  listed : ListsKey (rulesAt schema path) Json.wildcard

theorem checkedByParent_iff {rules : List Rule} {segment : Segment} :
    checkedByParent rules segment = true ↔
      ChecksEach rules ∨ ∃ key, IsPlainKey key ∧ segment = .ofKey key ∧ ListsKey rules key := by
  unfold checkedByParent
  rw [List.any_eq_true]
  constructor
  · rintro ⟨rule, hmem, h⟩
    cases hrule : rule.assertion with
    | exactKeys _ => simp [hrule] at h
    | eachValue each => exact Or.inl ⟨rule, hmem, each, hrule⟩
    | exactFields fields =>
      cases segment with
      | key name hname =>
        simp only [hrule, List.any_eq_true, beq_iff_eq] at h
        obtain ⟨field, hfield, heq⟩ := h
        refine Or.inr ⟨name, hname, (Segment.ofKey_eq_key.mpr rfl).symm, rule, hmem, fields, hrule, ?_⟩
        exact List.mem_map.mpr ⟨field, hfield, heq⟩
      | _ => simp [hrule] at h
  · rintro (⟨rule, hmem, each, hrule⟩ | ⟨key, hplain, rfl, rule, hmem, fields, hrule, hlist⟩)
    · exact ⟨rule, hmem, by rw [hrule]⟩
    · obtain ⟨field, hfield, heq⟩ := List.mem_map.mp hlist
      refine ⟨rule, hmem, ?_⟩
      rw [hrule, Segment.ofKey_eq_key (h := hplain) |>.mpr rfl]
      exact List.any_eq_true.mpr ⟨field, hfield, beq_iff_eq.mpr heq⟩

theorem enters_iff {schema : Schema} {path : TreePath} {segment : Segment} {child : Json} :
    enters schema path segment child = true ↔
      child.isContainer = true ∧ ¬ Exempt IsPlainKey schema path segment := by
  unfold enters isPassedOver Exempt
  rw [← checkedByParent_iff]
  unfold Table.contains
  cases child.isContainer <;>
    cases schema.rules.get? (path.child segment).generalize <;> simp

theorem visited_iff_mem_walk {schema : Schema} {spec : Json} {path : TreePath} {value : Json} :
    Visited IsPlainKey schema spec path value ↔
      (path, value) ∈ Json.walk (enters schema) .root spec := by
  rw [Json.mem_walk]
  simp only [enters_iff]
  rfl

/-! ## Valid means that all visited nodes are sound -/

section
variable {schema : Schema} {isFile : String → Bool}

theorem entry_met {path : TreePath} {value : Json} : Demand.violation? schema isFile ⟨path, value, none⟩ = none ↔
    path = .root ∨ (schema.rules.get? path.generalize).isSome = true := by
  have hroot : path = .root ↔ path.isEmpty = true := List.isEmpty_iff.symm
  rw [hroot, ← Table.contains, ← Bool.or_eq_true]
  simp only [Demand.violation?]
  split
  · next h => simp [h]
  · next h => simp [h]

theorem rule_met {path : TreePath} {value : Json} {rule : Rule} :
    Demand.violation? schema isFile ⟨path, value, some rule⟩ = none ↔ rule.assertion.Holds isFile value := by
  rw [← Check.assertion_ok]
  simp only [Demand.violation?]
  cases Check.assertion isFile value rule.assertion <;> simp

theorem demandsOn_met {path : TreePath} {value : Json} :
    (∀ demand ∈ demandsOn schema (path, value), demand.violation? schema isFile = none) ↔
      Sound schema isFile path value := by
  unfold demandsOn
  rw [List.forall_mem_cons, entry_met, List.forall_mem_map]
  simp only [rule_met]
  exact ⟨fun h => ⟨h.1, h.2⟩, fun h => ⟨h.described, h.satisfied⟩⟩

theorem run_ok_iff {before : Diagnosis} {spec : Json} :
    (∃ after, run schema isFile before spec = .ok after) ↔
      spec.isContainer = true ∧
        ∀ path value, Visited IsPlainKey schema spec path value → Sound schema isFile path value := by
  unfold run
  cases hroot : spec.isContainer with
  | false => simp
  | true =>
    rw [if_pos rfl, visit_eq_meet, meet_ok]
    simp only [demands, List.mem_flatMap, visited_iff_mem_walk, true_and, ← demandsOn_met]
    constructor
    · intro h path value hmem demand hdemand
      exact h demand ⟨(path, value), hmem, hdemand⟩
    · rintro h demand ⟨⟨path, value⟩, hmem, hdemand⟩
      exact h path value hmem demand hdemand

theorem Exempt.mono {honoured wider : String → Prop} {path : TreePath} {segment : Segment}
    (himp : ∀ key, honoured key → wider key) (h : Exempt honoured schema path segment) :
    Exempt wider schema path segment := by
  obtain ⟨hnone, h | ⟨key, hkey, hseg, hlist⟩⟩ := h
  · exact ⟨hnone, Or.inl h⟩
  · exact ⟨hnone, Or.inr ⟨key, himp key hkey, hseg, hlist⟩⟩

/-- Only a starred child tells the two ways of leaving out children apart. -/
theorem visited_iff_of_no_starred {spec : Json}
    (hstar : ¬ ∃ path value child, HasStarredChild schema spec path value child)
    {path : TreePath} {value : Json} :
    Visited IsPlainKey schema spec path value ↔ Visited (fun _ => True) schema spec path value := by
  constructor
  · intro h
    induction h with
    | top => exact .top
    | @child path value segment child _ hmem henter ih =>
      refine .child ih hmem ⟨henter.1, fun hexempt => henter.2 ?_⟩
      obtain ⟨hnone, h | ⟨key, -, hseg, hlist⟩⟩ := hexempt
      · exact ⟨hnone, Or.inl h⟩
      · by_cases hkey : key = Json.wildcard
        · subst hkey hseg
          by_cases heach : ChecksEach (rulesAt schema path)
          · exact ⟨hnone, Or.inl heach⟩
          · exact absurd ⟨path, value, child, ih, hmem, henter.1, hnone, heach, hlist⟩ hstar
        · exact ⟨hnone, Or.inr ⟨key, hkey, hseg, hlist⟩⟩
  · exact Json.Reached.mono fun _ _ _ h => ⟨h.1, fun hexempt => h.2 (hexempt.mono fun _ _ => trivial)⟩

theorem HasStarredChild.not_sound (isFile : String → Bool) {spec : Json} {path : TreePath} {value child : Json}
    (h : HasStarredChild schema spec path value child) :
    Visited IsPlainKey schema spec (path.child .wildcard) child ∧
      ¬ Sound schema isFile (path.child .wildcard) child := by
  constructor
  · refine .child (h.visited.mono fun _ _ _ h => ⟨h.1, fun hexempt => h.2 (hexempt.mono fun _ _ => trivial)⟩)
      h.isChild ⟨h.isContainer, ?_⟩
    rintro ⟨-, heach | ⟨key, hplain, hseg, -⟩⟩
    · exact h.unchecked heach
    · exact hplain (Segment.ofKey_eq_wildcard.mp hseg.symm)
  · rintro ⟨hroot | hsome, -⟩
    · exact TreePath.child_ne_root _ _ hroot
    · rw [h.undescribed] at hsome; cases hsome

theorem run_ok_iff_of_no_starred {before : Diagnosis} {spec : Json} :
    (∃ after, run schema isFile before spec = .ok after) ↔
      spec.isContainer = true ∧
        (∀ path value, Visited (fun _ => True) schema spec path value → Sound schema isFile path value) ∧
        ¬ ∃ path value child, HasStarredChild schema spec path value child := by
  rw [run_ok_iff]
  refine and_congr_right fun _ => ?_
  constructor
  · intro hsound
    have hstar : ¬ ∃ path value child, HasStarredChild schema spec path value child := by
      rintro ⟨path, value, child, h⟩
      obtain ⟨hvisited, hunsound⟩ := h.not_sound isFile
      exact hunsound (hsound _ _ hvisited)
    refine ⟨fun path value hvisited => ?_, hstar⟩
    exact hsound path value ((visited_iff_of_no_starred hstar).mpr hvisited)
  · rintro ⟨hsound, hstar⟩ path value hvisited
    exact hsound path value ((visited_iff_of_no_starred hstar).mp hvisited)

theorem run_error {before : Diagnosis} {spec : Json} {rejection : Rejection}
    (h : run schema isFile before spec = .error rejection) :
    (spec.isContainer = false ∧ rejection.fault = ⟨.root, .expectedContainer spec.typeName⟩) ∨
    (spec.isContainer = true ∧ ∃ earlier demand later,
      demands schema .root spec = earlier ++ demand :: later ∧
      (∀ met ∈ earlier, met.violation? schema isFile = none) ∧
      demand.violation? schema isFile = some rejection.fault.violation ∧
      rejection.fault.path = demand.path) := by
  unfold run at h
  cases hroot : spec.isContainer with
  | false =>
    rw [hroot, if_neg (by simp)] at h
    cases h
    exact Or.inl ⟨rfl, rfl⟩
  | true =>
    rw [hroot, if_pos rfl, visit_eq_meet] at h
    obtain ⟨earlier, demand, later, violation, hlist, hearlier, hdemand, rfl⟩ := meet_eq_error.mp h
    exact Or.inr ⟨rfl, earlier, demand, later, hlist, hearlier, hdemand, rfl⟩

end

/-- **Validation.** A specification is valid exactly when its root is a list or mapping and every
visited node is sound. If listing a child's key counted for the key `*` as well, these would be the
same specifications less those with a starred child. A refusal names the first demand that fails,
in document order, with the path of the node it was made of. -/
theorem valid_iff_visited_sound (schema : Schema) (isFile : String → Bool) (before : Diagnosis) (spec : Json) :
    ((∃ after, run schema isFile before spec = .ok after) ↔
      spec.isContainer = true ∧
        ∀ path value, Visited IsPlainKey schema spec path value → Sound schema isFile path value) ∧
    ((∃ after, run schema isFile before spec = .ok after) ↔
      spec.isContainer = true ∧
        (∀ path value, Visited (fun _ => True) schema spec path value → Sound schema isFile path value) ∧
        ¬ ∃ path value child, HasStarredChild schema spec path value child) ∧
    ∀ rejection, run schema isFile before spec = .error rejection →
      (spec.isContainer = false ∧ rejection.fault = ⟨.root, .expectedContainer spec.typeName⟩) ∨
      (spec.isContainer = true ∧ ∃ earlier demand later,
        demands schema .root spec = earlier ++ demand :: later ∧
        (∀ met ∈ earlier, met.violation? schema isFile = none) ∧
        demand.violation? schema isFile = some rejection.fault.violation ∧
        rejection.fault.path = demand.path) :=
  ⟨run_ok_iff, run_ok_iff_of_no_starred, fun _ => run_error⟩

/-! ## The key that is no key -/

/-- A schema whose root lists the field `*`. -/
def starredDocument : Json := .obj [("/", .obj [("matches", .obj [("*", .str "non_empty_dict")])])]

def starredSpec : Json := .obj [("*", .obj [("x", .num (.int 1))])]

/-- The mapping under `*` is refused for want of an entry, though the root lists its key and no visited
node would be unsound if that counted. -/
theorem starred_child_refused : ∃ schema, Schema.compile starredDocument = .ok schema ∧
    (∃ rejection, run schema (fun _ => false) .fresh starredSpec = .error rejection ∧
      rejection.fault.violation = .noRule [.wildcard]) ∧
    starredSpec.isContainer = true ∧
    ∀ path value, Visited (fun _ => True) schema starredSpec path value →
      Sound schema (fun _ => false) path value := by
  refine ⟨⟨⟨[([], [⟨.exactFields [("*", .nonEmptyDict)], .obj [("*", .str "non_empty_dict")]⟩])]⟩, [],
    ⟨[]⟩, ⟨[]⟩⟩, rfl, ⟨_, rfl, rfl⟩, rfl, fun path value hvisited => ?_⟩
  have honly : path = .root ∧ value = starredSpec := by
    induction hvisited with
    | top => exact ⟨rfl, rfl⟩
    | child _ hmem henter ih =>
      obtain ⟨rfl, rfl⟩ := ih
      cases List.mem_singleton.mp hmem
      refine absurd ⟨rfl, Or.inr ⟨"*", trivial, rfl, ?_⟩⟩ henter.2
      exact ⟨_, List.mem_singleton.mpr rfl, _, rfl, List.mem_singleton.mpr rfl⟩
  obtain ⟨rfl, rfl⟩ := honly
  refine ⟨Or.inl rfl, fun rule hmem => ?_⟩
  cases List.mem_singleton.mp hmem
  exact (Check.assertion_ok _ _ _).mp rfl

end Validate

end TestMatrix
