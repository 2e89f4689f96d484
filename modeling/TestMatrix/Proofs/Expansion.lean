import TestMatrix.Proofs.Coverage
import TestMatrix.Proofs.Domains
import TestMatrix.Proofs.Odometer

/-!
# Selections stay within the allowed sets

A field that draws from an allowed set is read by three parts: the compiler records its domain, the
validator holds its value against the set, and the search for patterns expands it. Main statement:
they agree, so that whatever is selected for the field is a member of the set and not the wildcard.
-/

namespace TestMatrix

/-! ## What a selection holds -/

namespace Odometer

/-- A field of a selection, taken from a dimension. -/
def Draws (dimension : Dimension) (entry : String × Json) : Prop :=
  entry.1 = dimension.key ∧ entry.2 ∈ dimension.values

theorem select_of_lt : ∀ {dimensions : List Dimension} {digits : List Nat},
    List.Forall₂ (· < ·) digits (sizes dimensions) → ∃ entries, List.Forall₂ Draws dimensions entries ∧
      select dimensions digits = Fields.ofEntries entries := by
  intro dimensions digits h
  refine ⟨_, ?_, rfl⟩
  induction dimensions generalizing digits with
  | nil => cases h; exact .nil
  | cons dimension rest ih =>
    obtain ⟨digit, others, hdigit, hothers, rfl⟩ := List.forall₂_cons_right_iff.mp h
    refine .cons ⟨rfl, ?_⟩ (ih hothers)
    show (dimension.values[digit]?).getD .null ∈ dimension.values
    rw [List.getElem?_eq_getElem hdigit]
    exact List.getElem_mem hdigit

theorem draws_of_mem_selections {dimensions : List Dimension} {selection : Fields}
    (h : selection ∈ selections dimensions) : ∃ entries, List.Forall₂ Draws dimensions entries ∧
      selection = Fields.ofEntries entries := by
  rw [selections_eq] at h
  obtain ⟨k, hk, rfl⟩ := List.mem_map.mp h
  rw [List.mem_range, selectionCount_eq] at hk
  exact select_of_lt (digits_lt hk)

theorem lookup_of_mem_selections {dimensions : List Dimension}
    (hnodup : (dimensions.map Dimension.key).Nodup) {selection : Fields} (h : selection ∈ selections dimensions)
    {dimension : Dimension} (hmem : dimension ∈ dimensions) :
    ∃ value ∈ dimension.values, selection.lookup dimension.key = some value := by
  obtain ⟨entries, hdraws, rfl⟩ := draws_of_mem_selections h
  have hkeys : Fields.keys entries = dimensions.map Dimension.key := by
    rw [Fields.keys, ← List.forall₂_eq_eq_eq, List.forall₂_map_left_iff, List.forall₂_map_right_iff]
    exact List.Forall₂.flip (hdraws.imp fun _ _ h => h.1)
  rw [← hkeys] at hnodup
  obtain ⟨⟨key, value⟩, hentry, rfl, hvalue⟩ := exists_of_forall₂_right hdraws.flip hmem
  refine ⟨value, hvalue, ?_⟩
  rw [Fields.ofEntries_of_nodup hnodup]
  exact Fields.lookup_of_mem hnodup hentry

end Odometer

/-! ## What a field expands to -/

namespace Pattern

theorem expand_wildcard {value : Json} (h : value.isWildcard = true) (values : List Json) :
    expand (some values) value = values := by
  unfold expand; rw [h]

theorem expand_list (domain : Option (List Json)) (items : List Json) : expand domain (.arr items) = items := by
  cases domain <;> rfl

theorem expand_single (domain : Option (List Json)) {value : Json} (hwild : value.isWildcard = false)
    (hlist : ∀ items, value ≠ .arr items) : expand domain value = [value] := by
  unfold expand
  rw [hwild]
  cases value with
  | arr items => exact absurd rfl (hlist items)
  | _ => rfl

theorem dimensionsOf_keys (schema : Schema) (leafPath : TreePath) (fields : Fields) :
    (dimensionsOf schema leafPath fields).map Dimension.key = Fields.keys fields := by
  rw [dimensionsOf, List.map_map]; rfl

theorem filter_dimensionsOf {schema : Schema} {leafPath : TreePath} {name : String} {value : Json} :
    ∀ {fields : Fields}, (Fields.keys fields).Nodup → fields.lookup name = some value →
      (dimensionsOf schema leafPath fields).filter (fun dimension => dimension.key = name) =
        [⟨name, expand (schema.domains.get? (leafPath.childKey name)) value⟩]
  | [], _, h => by cases h
  | (key, x) :: rest, hnodup, h => by
    rw [Fields.keys_cons, List.nodup_cons] at hnodup
    rw [lookup_cons_ite] at h
    rw [dimensionsOf, List.map_cons, ← dimensionsOf, List.filter_cons]
    by_cases hk : name = key
    · subst hk
      rw [if_pos rfl] at h
      cases h
      have hrest : (dimensionsOf schema leafPath rest).filter (fun dimension => dimension.key = name) = [] := by
        rw [List.filter_eq_nil_iff]
        intro dimension hmem hname
        rw [← dimensionsOf_keys schema leafPath rest] at hnodup
        exact hnodup.1 (List.mem_map.mpr ⟨dimension, hmem, of_decide_eq_true hname⟩)
      simp [hrest]
    · rw [if_neg hk] at h
      simp [Ne.symm hk, filter_dimensionsOf hnodup.2 h]

/-- Every value that a field is expanded to is an allowed one when the field draws from the allowed set. -/
theorem expand_isAmong {allowed : List Json} (hdistinct : ∀ value ∈ allowed, value.hasDistinctKeys = true)
    {value : Json} (hdrawn : value.DrawnFrom allowed) {chosen : Json}
    (hmem : chosen ∈ expand (some (plainValues allowed)) value) :
    chosen.isWildcard = false ∧ chosen.isAmong allowed = true := by
  by_cases hwild : value.isWildcard = true
  · rw [expand_wildcard hwild, plainValues, List.mem_filter, Bool.not_eq_true'] at hmem
    refine ⟨hmem.2, List.any_eq_true.mpr ⟨chosen, hmem.1, ?_⟩⟩
    exact Json.same_refl chosen (hdistinct chosen hmem.1)
  · rw [Bool.not_eq_true] at hwild
    by_cases hlist : ∃ items, value = .arr items
    · obtain ⟨items, rfl⟩ := hlist
      rw [expand_list] at hmem
      exact hdrawn chosen hmem
    · have hsingle : ∀ items, value ≠ .arr items := fun items h => hlist ⟨items, h⟩
      rw [expand_single _ hwild hsingle, List.mem_singleton] at hmem
      subst hmem
      refine ⟨hwild, ?_⟩
      cases chosen with
      | arr items => exact absurd rfl (hsingle items)
      | _ => exact hdrawn.resolve_left (by rw [hwild]; exact Bool.false_ne_true)

section
variable {document spec : Json} {schema : Schema} {isFile : String → Bool} {before after : Diagnosis}

theorem drawn_of_valid (hcompile : Schema.compile document = .ok schema)
    (hvalid : Validate.run schema isFile before spec = .ok after) {found : List Pattern}
    (hfound : ofSpec schema spec = .ok found) {pattern : Pattern} (hmem : pattern ∈ found)
    {rules : List Rule} (hrules : schema.rules.get? pattern.leafPath = some rules) {name : String} :
    ∃ fields, spec.IsNode pattern.path (.obj fields) ∧
      pattern.dimensions = dimensionsOf schema pattern.leafPath fields ∧
      ∀ allowed ∈ allowedSets schema.references rules name, ∃ value, fields.lookup name = some value ∧
        value.DrawnFrom allowed := by
  obtain ⟨declarations, -, hschema⟩ := Schema.compile_eq_ok.mp hcompile
  obtain ⟨fields, hnode, hat, -, hsound⟩ := Validate.sound_of_found hcompile hvalid hfound hmem
  refine ⟨fields, hnode, hat.leafPath ▸ hat.dimensions, fun allowed hallowed => ?_⟩
  obtain ⟨rule, hrule, tests, hassertion, htest⟩ := Schema.exists_oneOf hschema hrules hallowed
  have hholds : rule.assertion.Holds isFile (.obj fields) := by
    refine hsound.satisfied rule ?_
    rw [Validate.rulesAt, ← hat.leafPath, hrules]
    exact hrule
  rw [hassertion] at hholds
  obtain ⟨fields', h, hkeys, htests⟩ := hholds
  cases h
  have hlisted := hkeys.1 name (List.mem_map.mpr ⟨_, htest, rfl⟩)
  obtain ⟨value, hvalue⟩ := Option.isSome_iff_exists.mp (Fields.lookup_isSome_iff.mpr hlisted)
  exact ⟨value, hvalue, htests name _ htest value hvalue⟩

/-- **Expansion.** In a valid specification a field of a pattern that is given allowed sets has one dimension:
the plain values of the last set for the wildcard, the items of a list, and any other value alone.
Every selection holds for it a member of that set other than the wildcard. -/
theorem expands_within_allowed (hdocument : document.hasDistinctKeys = true)
    (hspec : spec.hasDistinctKeys = true) (hcompile : Schema.compile document = .ok schema)
    (hvalid : Validate.run schema isFile before spec = .ok after) :
    ∀ found, ofSpec schema spec = .ok found → ∀ pattern ∈ found, ∀ rules name allowed,
      schema.rules.get? pattern.leafPath = some rules →
      (allowedSets schema.references rules name).getLast? = some allowed →
      ∃ fields value values,
        spec.IsNode pattern.path (.obj fields) ∧ fields.lookup name = some value ∧
        pattern.dimensions.filter (fun dimension => dimension.key = name) = [⟨name, values⟩] ∧
        (value.isWildcard = true → values = plainValues allowed) ∧
        (∀ items, value = .arr items → values = items) ∧
        (value.isWildcard = false → (∀ items, value ≠ .arr items) → values = [value]) ∧
        ∀ selection ∈ pattern.selections, ∃ chosen, selection.lookup name = some chosen ∧
          chosen.isWildcard = false ∧ chosen.isAmong allowed = true := by
  intro found hfound pattern hmem rules name allowed hrules hlast
  obtain ⟨declarations, -, hschema⟩ := Schema.compile_eq_ok.mp hcompile
  have hallowed := List.mem_of_getLast? hlast
  obtain ⟨fields, hnode, hdimensions, hdrawn⟩ := drawn_of_valid hcompile hvalid hfound hmem hrules
  obtain ⟨value, hvalue, hdrawn⟩ := hdrawn allowed hallowed
  have hnodup : (Fields.keys fields).Nodup := (Json.hasDistinctKeys_obj.mp (hnode.hasDistinctKeys hspec)).1
  have hdomain : schema.domains.get? (pattern.leafPath.childKey name) = some (plainValues allowed) := by
    rw [Schema.domain_eq hschema hrules, hlast]; rfl
  have hdimension : pattern.dimensions.filter (fun dimension => dimension.key = name) =
      [⟨name, expand (some (plainValues allowed)) value⟩] := by
    rw [hdimensions, filter_dimensionsOf hnodup hvalue, hdomain]
  refine ⟨fields, value, _, hnode, hvalue, hdimension, fun h => expand_wildcard h _, ?_,
    expand_single _, fun selection hselection => ?_⟩
  · rintro items rfl; exact expand_list _ items
  · have hone : ⟨name, expand (some (plainValues allowed)) value⟩ ∈ pattern.dimensions :=
      List.mem_of_mem_filter (hdimension ▸ List.mem_singleton.mpr rfl)
    have hkeys : (pattern.dimensions.map Dimension.key).Nodup := by
      rw [hdimensions, dimensionsOf_keys]; exact hnodup
    obtain ⟨chosen, hchosen, hlookup⟩ := Odometer.lookup_of_mem_selections hkeys hselection hone
    have hdistinct := Schema.members_hasDistinctKeys hcompile hdocument hrules hallowed
    exact ⟨chosen, hlookup, expand_isAmong hdistinct hdrawn hchosen⟩

end

/-- A document with a leaf whose fields draw from a named set and from a list, with what it compiles to. -/
def paintedDocument : Json := .obj [
  ("/cases/*", .obj [("matches", .obj [("color", .str "@colors"), ("size", .arr [.str "*", .num (.int 1)])]),
    ("path", .str "out"), ("template", .str "text")]),
  ("#colors", .arr [.str "*", .str "red", .str "green"])]

def paintedSchema : Schema :=
  ⟨⟨[([], []), ([.ofKey "cases"], []), ([.ofKey "cases", .wildcard],
      [⟨.exactFields [("color", .oneOf [.str "*", .str "red", .str "green"]),
          ("size", .oneOf [.str "*", .num (.int 1)])],
        .obj [("color", .str "@colors"), ("size", .arr [.str "*", .num (.int 1)])]⟩])]⟩,
    [("colors", .arr [.str "*", .str "red", .str "green"])],
    ⟨[([.ofKey "cases", .wildcard], ⟨some "out", some (.inline "text"), .generate, [], []⟩)]⟩,
    ⟨[([.ofKey "cases", .wildcard, .ofKey "color"], [.str "red", .str "green"]),
      ([.ofKey "cases", .wildcard, .ofKey "size"], [.num (.int 1)])]⟩⟩

def paintedSpec : Json := .obj [("cases", .arr [.obj [("color", .str "*"), ("size", .arr [.num (.int 1)])]])]

/-- The wildcard of the pattern expands to the two plain values of the named set. -/
theorem painted_expands_within_allowed : ∃ after pattern rules,
    paintedDocument.hasDistinctKeys = true ∧ paintedSpec.hasDistinctKeys = true ∧
    Schema.compile paintedDocument = .ok paintedSchema ∧
    Validate.run paintedSchema (fun _ => false) .fresh paintedSpec = .ok after ∧
    ofSpec paintedSchema paintedSpec = .ok [pattern] ∧
    paintedSchema.rules.get? pattern.leafPath = some rules ∧
    (allowedSets paintedSchema.references rules "color").getLast? = some [.str "*", .str "red", .str "green"] ∧
    ∀ selection ∈ pattern.selections, ∃ chosen, selection.lookup "color" = some chosen ∧
      chosen.isWildcard = false ∧ chosen.isAmong [.str "*", .str "red", .str "green"] = true := by
  have hdocument : paintedDocument.hasDistinctKeys = true := by decide
  have hspec : paintedSpec.hasDistinctKeys = true := by decide
  have hcompile : Schema.compile paintedDocument = .ok paintedSchema := rfl
  have hvalid : Validate.run paintedSchema (fun _ => false) .fresh paintedSpec = .ok _ := rfl
  refine ⟨_, _, _, hdocument, hspec, hcompile, hvalid, rfl, rfl, rfl, ?_⟩
  obtain ⟨_, _, _, -, -, -, -, -, -, hselections⟩ := expands_within_allowed hdocument hspec hcompile hvalid
    _ rfl _ (List.mem_singleton.mpr rfl) _ "color" _ rfl rfl
  exact hselections

end Pattern

end TestMatrix
