import TestMatrix.Proofs.Expansion

/-!
# Where the wildcard stays

The validator accepts the wildcard wherever it checks a value against an allowed set. Only the sets of
rules about exact fields are recorded as domains, so only there a wildcard is expanded. Any other
wildcard is a value like all others and goes into every selection as it is.
-/

namespace TestMatrix

namespace Pattern

theorem expand_unbound {value : Json} (h : value.isWildcard = true) : expand none value = [value] := by
  cases value with
  | str text => unfold expand; rw [h]
  | _ => cases h

section
variable {document spec : Json} {schema : Schema}

/-- What a selection holds for a field is one of the values that the field is expanded to. -/
theorem lookup_selection {pattern : Pattern} {fields : Fields} (hnodup : (Fields.keys fields).Nodup)
    (hdimensions : pattern.dimensions = dimensionsOf schema pattern.leafPath fields)
    {name : String} {value : Json} (hvalue : fields.lookup name = some value)
    {selection : Fields} (hselection : selection ∈ pattern.selections) :
    ∃ chosen ∈ expand (schema.domains.get? (pattern.leafPath.childKey name)) value,
      selection.lookup name = some chosen := by
  have hkeys : (pattern.dimensions.map Dimension.key).Nodup := by
    rw [hdimensions, dimensionsOf_keys]; exact hnodup
  have hdimension : ⟨name, expand (schema.domains.get? (pattern.leafPath.childKey name)) value⟩ ∈
      pattern.dimensions := by
    rw [hdimensions]
    exact List.mem_map.mpr ⟨(name, value), mem_of_lookup hvalue, rfl⟩
  exact Odometer.lookup_of_mem_selections hkeys hselection hdimension

/-- **Wildcards.** Where rules about exact fields give a field allowed sets, a wildcard is expanded: every
selection holds a member of the last set other than the wildcard. Where none does, though a rule about
each value may have checked it, every selection holds the wildcard itself. -/
theorem wildcard_expanded_where_matched (hspec : spec.hasDistinctKeys = true)
    (hcompile : Schema.compile document = .ok schema) :
    ∀ found, ofSpec schema spec = .ok found → ∀ pattern ∈ found, ∀ fields rules name value,
      spec.IsNode pattern.path (.obj fields) → schema.rules.get? pattern.leafPath = some rules →
      fields.lookup name = some value → value.isWildcard = true →
        (∀ allowed, (allowedSets schema.references rules name).getLast? = some allowed →
          ∀ selection ∈ pattern.selections, ∃ chosen ∈ allowed,
            selection.lookup name = some chosen ∧ chosen.isWildcard = false) ∧
        (allowedSets schema.references rules name = [] →
          ∀ selection ∈ pattern.selections, selection.lookup name = some value) := by
  intro found hfound pattern hmem fields rules name value hnode hrules hvalue hwild
  obtain ⟨declarations, -, hschema⟩ := Schema.compile_eq_ok.mp hcompile
  have hnodup : (Fields.keys fields).Nodup := (Json.hasDistinctKeys_obj.mp (hnode.hasDistinctKeys hspec)).1
  have hdimensions : pattern.dimensions = dimensionsOf schema pattern.leafPath fields := by
    obtain ⟨place, fields', hnode', hat⟩ := isAt_of_mem_ofNode spec hfound pattern hmem
    rw [← hat.path] at hnode'
    cases hnode.unique hspec hnode'
    rw [hat.leafPath]
    exact hat.dimensions
  constructor
  · intro allowed hlast selection hselection
    have hdomain : schema.domains.get? (pattern.leafPath.childKey name) = some (plainValues allowed) := by
      rw [Schema.domain_eq hschema hrules, hlast]; rfl
    obtain ⟨chosen, hchosen, hlookup⟩ := lookup_selection hnodup hdimensions hvalue hselection
    rw [hdomain, expand_wildcard hwild, plainValues, List.mem_filter, Bool.not_eq_true'] at hchosen
    exact ⟨chosen, hchosen.1, hlookup, hchosen.2⟩
  · intro hnone selection hselection
    have hdomain : schema.domains.get? (pattern.leafPath.childKey name) = none := by
      rw [Schema.domain_eq hschema hrules, hnone]; rfl
    obtain ⟨chosen, hchosen, hlookup⟩ := lookup_selection hnodup hdimensions hvalue hselection
    rw [hdomain, expand_unbound hwild] at hchosen
    rw [hlookup, List.mem_singleton.mp hchosen]

end

theorem painted_wildcard_expanded : ∃ pattern fields rules,
    paintedSpec.hasDistinctKeys = true ∧ Schema.compile paintedDocument = .ok paintedSchema ∧
    ofSpec paintedSchema paintedSpec = .ok [pattern] ∧ paintedSpec.IsNode pattern.path (.obj fields) ∧
    paintedSchema.rules.get? pattern.leafPath = some rules ∧ fields.lookup "color" = some (.str "*") ∧
    (allowedSets paintedSchema.references rules "color").getLast? = some [.str "*", .str "red", .str "green"] ∧
    ∀ selection ∈ pattern.selections, ∃ chosen ∈ [.str "*", .str "red", .str "green"],
      selection.lookup "color" = some chosen ∧ chosen.isWildcard = false := by
  have hspec : paintedSpec.hasDistinctKeys = true := by decide
  have hcompile : Schema.compile paintedDocument = .ok paintedSchema := rfl
  have hnode : paintedSpec.IsNode ((TreePath.root.child (.ofKey "cases")).child (.index 0))
      (.obj [("color", .str "*"), ("size", .arr [.num (.int 1)])]) :=
    .child (.child .top (List.mem_singleton.mpr rfl) trivial) (List.mem_singleton.mpr rfl) trivial
  refine ⟨_, _, _, hspec, hcompile, rfl, hnode, rfl, rfl, rfl, ?_⟩
  exact (wildcard_expanded_where_matched hspec hcompile _ rfl _ (List.mem_singleton.mpr rfl)
    _ _ "color" _ hnode rfl rfl rfl).1 _ rfl

/-- A document whose leaf checks each value against a set, with what it compiles to. -/
def eachDocument : Json := .obj [("/cases/*", .obj [("each_value", .arr [.str "a", .str "b"]),
  ("path", .str "%(x)s"), ("template", .str "text")])]

def eachSchema : Schema :=
  ⟨⟨[([], []), ([.ofKey "cases"], []), ([.ofKey "cases", .wildcard],
      [⟨.eachValue (.oneOf [.str "a", .str "b"]), .arr [.str "a", .str "b"]⟩])]⟩, [],
    ⟨[([.ofKey "cases", .wildcard], ⟨some "%(x)s", some (.inline "text"), .generate, [], []⟩)]⟩, ⟨[]⟩⟩

def eachSpec : Json := .obj [("cases", .arr [.obj [("x", .str "*")]])]

/-- The wildcard is checked against the set and stays in the selection. -/
theorem each_wildcard_stays : Schema.compile eachDocument = .ok eachSchema ∧
    (∃ after, Validate.run eachSchema (fun _ => false) .fresh eachSpec = .ok after) ∧
    ∃ pattern, ofSpec eachSchema eachSpec = .ok [pattern] ∧
      (∃ rules, eachSchema.rules.get? pattern.leafPath = some rules ∧
        ∃ rule ∈ rules, rule.assertion = .eachValue (.oneOf [.str "a", .str "b"])) ∧
      [("x", .str "*")] ∈ pattern.selections :=
  ⟨rfl, ⟨_, rfl⟩, _, rfl, ⟨_, rfl, _, List.mem_singleton.mpr rfl, rfl⟩, List.mem_singleton.mpr rfl⟩

end Pattern

end TestMatrix
