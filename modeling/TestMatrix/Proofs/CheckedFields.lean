import TestMatrix.Proofs.Rejections

/-!
# Content that the parent has checked

A list or mapping without an entry of its own is accepted where an assertion of its parent has checked it.
A parent that lists the key of the child counts as such, unless the key is `*`: that key is read as the
wildcard, which the parent's keys are not compared with.
-/

namespace TestMatrix

namespace Validate

section
variable {schema : Schema} {isFile : String → Bool} {before : Diagnosis} {spec : Json}

theorem not_exempt_of_visited {honoured : String → Prop} {path : TreePath} {segment : Segment} {value : Json}
    (h : Visited honoured schema spec (path.child segment) value) :
    ¬ Exempt honoured schema path segment := by
  generalize hplace : path.child segment = place at h
  cases h with
  | top => exact absurd hplace (TreePath.child_ne_root path segment)
  | child _ _ henter =>
    obtain ⟨rfl, rfl⟩ := TreePath.child_inj.mp hplace
    exact henter.2

/-- The walk comes to a node and has found all nodes before it sound. -/
def ComesTo (schema : Schema) (isFile : String → Bool) (spec : Json) (path : TreePath) : Prop :=
  ∃ earlier value later, Json.walk (enters schema) .root spec = earlier ++ (path, value) :: later ∧
    ∀ node ∈ earlier, Sound schema isFile node.1 node.2

theorem ComesTo.visited {path : TreePath} (h : ComesTo schema isFile spec path) :
    ∃ value, Visited IsPlainKey schema spec path value := by
  obtain ⟨earlier, value, later, hwalk, -⟩ := h
  exact ⟨value, visited_iff_mem_walk.mpr (hwalk ▸ List.mem_append_cons_self)⟩

/-- Only nodes without an entry are refused for want of one, and all of them that the walk comes to. -/
theorem refused_undescribed_iff {path : TreePath} (hpath : path ≠ .root) :
    (∃ rejection missing, run schema isFile before spec = .error rejection ∧
        rejection.fault = ⟨path, .noRule missing⟩) ↔
      schema.rules.get? path.generalize = none ∧ ComesTo schema isFile spec path := by
  constructor
  · rintro ⟨rejection, missing, hrun, hfault⟩
    cases hroot : spec.isContainer with
    | false =>
      rw [run, hroot, if_neg (by simp)] at hrun
      cases hrun
      cases hfault
    | true =>
      obtain ⟨earlier, place, value, violation, rule?, ⟨⟨later, hwalk⟩, hsound, hfails⟩, rfl⟩ :=
        (run_eq_error hroot).mp hrun
      cases hfault
      cases hfails with
      | undescribed _ hnone => exact ⟨hnone, earlier, value, later, hwalk, hsound⟩
      | violated _ _ hcheck => cases Check.isOfValue_of_assertion hcheck
  · rintro ⟨hnone, hcomes⟩
    obtain ⟨earlier, value, later, hwalk, hsound⟩ := hcomes
    have hroot : spec.isContainer = true := by
      by_contra hscalar
      have hmem : (path, value) ∈ Json.walk (enters schema) .root spec := hwalk ▸ List.mem_append_cons_self
      rw [Json.walk_eq, Json.children_eq_nil (Bool.eq_false_iff.mpr hscalar), List.flatMap_nil,
        List.mem_singleton] at hmem
      cases hmem
      exact hpath rfl
    exact ⟨_, _, (run_eq_error hroot).mpr ⟨earlier, path, value, _, none,
      ⟨⟨later, hwalk⟩, hsound, .undescribed hpath hnone⟩, rfl⟩, rfl⟩

/-- **Content that the parent has checked.** A child under a key that its parent lists is refused for want of
an entry only if the key is `*`, and then whenever the schema has none, no assertion of the parent is about
each value, and the walk comes to the child. -/
theorem listed_child_refused_iff {path : TreePath} {key : String} (hlisted : ListsKey (rulesAt schema path) key) :
    (∃ rejection missing, run schema isFile before spec = .error rejection ∧
        rejection.fault = ⟨path.childKey key, .noRule missing⟩) ↔
      key = Json.wildcard ∧ schema.rules.get? (path.childKey key).generalize = none ∧
        ¬ ChecksEach (rulesAt schema path) ∧ ComesTo schema isFile spec (path.childKey key) := by
  have hbelow : path.childKey key ≠ .root := TreePath.child_ne_root path _
  rw [refused_undescribed_iff hbelow]
  constructor
  · rintro ⟨hnone, hcomes⟩
    obtain ⟨value, hvisited⟩ := hcomes.visited
    have hchecked := not_exempt_of_visited hvisited
    refine ⟨?_, hnone, fun heach => hchecked ⟨hnone, Or.inl heach⟩, hcomes⟩
    by_contra hplain
    exact hchecked ⟨hnone, Or.inr ⟨key, hplain, rfl, hlisted⟩⟩
  · rintro ⟨-, hnone, -, hcomes⟩
    exact ⟨hnone, hcomes⟩

end

/-- A document that lists two fields of the mapping under `a`, with what it compiles to. -/
def listingDocument : Json :=
  .obj [("/a", .obj [("matches", .obj [("b", .str "non_empty_list"), ("*", .str "non_empty_list")])])]

def listingSchema : Schema :=
  ⟨⟨[([], []), ([.ofKey "a"], [⟨.exactFields [("b", .nonEmptyList), ("*", .nonEmptyList)],
      .obj [("b", .str "non_empty_list"), ("*", .str "non_empty_list")]⟩])]⟩, [], ⟨[]⟩, ⟨[]⟩⟩

def listingSpec : Json := .obj [("a", .obj [("b", .arr [.null]), ("*", .arr [.null])])]

/-- The list under `b` is passed over. The walk comes to the other one. -/
theorem listed_list_accepted : Schema.compile listingDocument = .ok listingSchema ∧
    (∀ rejection missing, run listingSchema (fun _ => false) .fresh listingSpec = .error rejection →
      rejection.fault ≠ ⟨[.ofKey "a", .ofKey "b"], .noRule missing⟩) ∧
    ComesTo listingSchema (fun _ => false) listingSpec [.ofKey "a", .wildcard] := by
  have hlists : ∀ key ∈ ["b", "*"], ListsKey (rulesAt listingSchema [.ofKey "a"]) key :=
    fun _ hmem => ⟨_, List.mem_singleton.mpr rfl, _, rfl, hmem⟩
  refine ⟨rfl, fun rejection missing hrun hfault => ?_, ?_⟩
  · have hstar := (listed_child_refused_iff (hlists "b" (by simp))).mp ⟨rejection, missing, hrun, hfault⟩
    exact absurd hstar.1 (by decide)
  · have hrun : run listingSchema (fun _ => false) .fresh listingSpec = .error _ := rfl
    exact ((listed_child_refused_iff (hlists "*" (by simp))).mp ⟨_, _, hrun, rfl⟩).2.2.2

/-- The mapping under `a` meets all that is asserted of it, and the list under its key `*` is refused. -/
theorem starred_list_refused : ∃ schema fields,
    Schema.compile (.obj [("/a", .obj [("matches", .obj [("*", .str "non_empty_list")])])]) = .ok schema ∧
    Visited IsPlainKey schema (.obj [("a", .obj fields)]) [.ofKey "a"] (.obj fields) ∧
    (∀ rule ∈ rulesAt schema [.ofKey "a"], rule.assertion.Holds (fun _ => false) (.obj fields)) ∧
    ListsKey (rulesAt schema [.ofKey "a"]) "*" ∧ ("*", .arr [.null]) ∈ fields ∧
    run schema (fun _ => false) .fresh (.obj [("a", .obj fields)]) =
      .error ⟨⟨[.ofKey "a", .ofKey "*"], .noRule [.ofKey "a", .ofKey "*"]⟩,
        ⟨some [.ofKey "a", .ofKey "*"], .arr [.null], some (.obj [("*", .str "non_empty_list")])⟩⟩ := by
  refine ⟨_, [("*", .arr [.null])], rfl, ?_, fun rule hmem => ?_, ?_, List.mem_singleton.mpr rfl, rfl⟩
  · exact visited_iff_mem_walk.mpr (List.mem_cons_of_mem _ (List.mem_cons_self ..))
  · cases List.mem_singleton.mp hmem
    exact (Check.assertion_ok _ _ _).mp rfl
  · exact ⟨_, List.mem_singleton.mpr rfl, _, rfl, List.mem_singleton.mpr rfl⟩

end Validate

end TestMatrix
