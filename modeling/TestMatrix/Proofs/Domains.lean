import TestMatrix.Proofs.Compiled
import TestMatrix.Proofs.DistinctKeys

/-!
# Allowed sets and domains

A schema writes the allowed set of a field as a list, or as a token that stands for a list or for the
keys of a mapping. The compiler turns what is written into a predicate and records a domain. Here the
allowed sets are read off the schema as it is written, and the domain of a field is the last of them,
without the wildcard.
-/

namespace TestMatrix

theorem filterMap_eq_of_forall₂ {α β γ : Type} {R : α → β → Prop} {f : α → Option γ} {g : β → Option γ}
    (hR : ∀ a b, R a b → f a = g b) {l : List α} {m : List β} (h : List.Forall₂ R l m) :
    l.filterMap f = m.filterMap g := by
  induction h with
  | nil => rfl
  | cons hab _ ih => rw [List.filterMap_cons, List.filterMap_cons, hR _ _ hab, ih]

theorem getLast?_flatMap_const {α β : Type} {f : α → List β} {s : List β} : ∀ {l : List α},
    (∀ a ∈ l, f a = [] ∨ f a = s) → (∃ a ∈ l, f a = s) → (l.flatMap f).getLast? = s.getLast?
  | [], _, h => by obtain ⟨_, h, _⟩ := h; cases h
  | a :: rest, hall, hex => by
    obtain ⟨ha, hrest⟩ := List.forall_mem_cons.mp hall
    rw [List.flatMap_cons, List.getLast?_append]
    by_cases hmore : ∃ b ∈ rest, f b = s
    · rw [getLast?_flatMap_const hrest hmore]
      rcases ha with ha | ha
      · rw [ha]; cases s.getLast? <;> rfl
      · rw [ha]; cases s.getLast? <;> rfl
    · have hnone : rest.flatMap f = [] := by
        rw [List.flatMap_eq_nil_iff]
        exact fun b hb => (hrest b hb).resolve_right fun e => hmore ⟨b, hb, e⟩
      have hs : f a = s := by
        obtain ⟨b, hb, e⟩ := hex
        rcases List.mem_cons.mp hb with rfl | hb
        · exact e
        · exact absurd ⟨b, hb, e⟩ hmore
      rw [hnone, hs]; rfl

theorem TreePath.childKey_inj {p q : TreePath} {a b : String} :
    p.childKey a = q.childKey b ↔ p = q ∧ a = b := by
  rw [childKey, childKey, child_inj]
  exact and_congr_right fun _ => ⟨Segment.ofKey_inj, congrArg _⟩

/-! ## Allowed sets as they are written -/

/-- The allowed set that a written predicate gives: a list as it stands, or the list that a token
stands for. -/
def References.allowedSet? (references : References) : Json → Option (List Json)
  | .arr allowed => some allowed
  | .str text =>
    (ReferenceToken.parse? text).bind fun token => (references.resolve token).toOption.bind Json.arr?
  | _ => none

/-- The fields that a rule about exact fields is written with. -/
def Rule.writtenFields (references : References) (rule : Rule) : List (String × Json) :=
  match rule.assertion, references.resolveIfToken rule.expectation with
  | .exactFields _, .ok (.obj fields) => fields
  | _, _ => []

/-- The allowed sets that rules give to a field, in order. -/
def allowedSets (references : References) (rules : List Rule) (name : String) : List (List Json) :=
  rules.flatMap fun rule => (rule.writtenFields references).filterMap fun (field, raw) =>
    if field = name then references.allowedSet? raw else none

/-- The values of an allowed set that a field can take. -/
def plainValues (allowed : List Json) : List Json := allowed.filter fun value => !value.isWildcard

/-! ## Allowed sets as they are compiled -/

def Predicate.allowed? : Predicate → Option (List Json)
  | .oneOf allowed => some allowed
  | _ => none

def Rule.compiledFields (rule : Rule) : List (String × Predicate) :=
  match rule.assertion with
  | .exactFields fields => fields
  | _ => []

def compiledSets (rules : List Rule) (name : String) : List (List Json) :=
  rules.flatMap fun rule => rule.compiledFields.filterMap fun (field, predicate) =>
    if field = name then predicate.allowed? else none

namespace Schema

theorem primitive_allowed? {name : String} {rule : Predicate} (h : primitive name = .ok rule) :
    rule.allowed? = none := by
  unfold primitive at h
  split at h
  · next p hp =>
    cases h
    unfold Predicate.primitive? at hp
    split at hp <;> first | cases hp; rfl | cases hp
  · cases h

theorem predicate_allowed? {references : References} {budget : Nat} {raw : Json} {rule : Predicate}
    (h : predicate references budget raw = .ok rule) : rule.allowed? = references.allowedSet? raw := by
  cases raw with
  | str name =>
    rw [predicate] at h
    rw [References.allowedSet?]
    cases htoken : ReferenceToken.parse? name with
    | none => rw [htoken] at h; exact primitive_allowed? h
    | some token =>
      rw [htoken] at h
      cases budget with
      | zero => cases h
      | succ budget =>
        simp only at h
        rw [Option.bind_some]
        cases hvalue : references.resolve token with
        | error defect => rw [hvalue] at h; cases h
        | ok value =>
          rw [hvalue] at h
          cases value with
          | arr allowed => cases h; rfl
          | obj fields =>
            obtain ⟨rules, -, rfl⟩ := Except.map_eq_ok.mp h
            rfl
          | str other => exact primitive_allowed? h
          | _ => cases h
  | arr allowed => rw [predicate] at h; cases h; rfl
  | _ => rw [predicate] at h <;> first | cases h | simp

theorem namedRules_eq_ok (read : Json → Except SchemaDefect Predicate) :
    ∀ (fields : List (String × Json)) {rules : List (String × Predicate)},
      namedRules read fields = .ok rules ↔
        List.Forall₂ (fun entry rule => rule.1 = entry.1 ∧ read entry.2 = .ok rule.2) fields rules
  | [], rules => by
    rw [namedRules, List.forall₂_nil_left_iff]
    exact ⟨fun h => by cases h; rfl, fun h => by rw [h]⟩
  | (name, raw) :: rest, rules => by
    simp only [namedRules, Except.bind_eq_ok, namedRules_eq_ok read rest, List.forall₂_cons_left_iff]
    constructor
    · rintro ⟨rule, hrule, others, hothers, h⟩
      cases h
      exact ⟨(name, rule), others, ⟨rfl, hrule⟩, hothers, rfl⟩
    · rintro ⟨⟨name', rule⟩, others, ⟨h, hrule⟩, hothers, rfl⟩
      cases h
      exact ⟨rule, hrule, others, hothers, rfl⟩

/-- The fields of a compiled rule are those it is written with, and give the same allowed sets. -/
theorem forall₂_compiledFields {references : References} {path : TreePath} {kind : AssertionKind} {rule : Rule}
    (h : assertion references path kind rule.expectation = .ok rule.assertion) :
    List.Forall₂ (fun entry field => field.1 = entry.1 ∧ field.2.allowed? = references.allowedSet? entry.2)
      (rule.writtenFields references) rule.compiledFields := by
  unfold Rule.writtenFields Rule.compiledFields
  cases kind with
  | exactFields =>
    obtain ⟨value, hvalue, h⟩ := Except.bind_eq_ok.mp h
    cases value with
    | obj fields =>
      obtain ⟨rules, hrules, hassertion⟩ := Except.map_eq_ok.mp h
      rw [← hassertion, hvalue]
      refine ((namedRules_eq_ok _ _).mp hrules).imp fun entry field hfield => ?_
      exact ⟨hfield.1, predicate_allowed? hfield.2⟩
    | _ => cases h
  | exactKeys =>
    obtain ⟨value, hvalue, h⟩ := Except.bind_eq_ok.mp h
    split at h
    · cases h' : rule.assertion with
      | exactFields _ => rw [h'] at h; cases h
      | _ => exact .nil
    · cases h
  | eachValue =>
    obtain ⟨each, -, hassertion⟩ := Except.map_eq_ok.mp h
    rw [← hassertion]
    exact .nil

theorem mem_rulesAt {declarations : List Declaration} {references : References} {path : TreePath}
    {rules : List Rule} (h : rulesAt declarations references path = .ok rules) {rule : Rule}
    (hmem : rule ∈ rules) : ∃ kind, ⟨path, .assertion kind rule.expectation⟩ ∈ declarations ∧
      assertion references path kind rule.expectation = .ok rule.assertion := by
  obtain ⟨⟨kind, expectation⟩, hwritten, hrule⟩ :=
    exists_of_forall₂_right ((Except.mapM_eq_ok _ _).mp h) hmem
  obtain ⟨compiled, hcompiled, rfl⟩ := Except.map_eq_ok.mp hrule
  obtain ⟨⟨place, content⟩, hdeclaration, hcontent⟩ := List.mem_filterMap.mp hwritten
  cases content with
  | assertion kind' expectation' =>
    simp only [Option.ite_none_right_eq_some, Option.some.injEq, Prod.mk.injEq] at hcontent
    obtain ⟨rfl, rfl, rfl⟩ := hcontent
    exact ⟨kind', hdeclaration, hcompiled⟩
  | _ => cases hcontent

section
variable {declarations : List Declaration} {schema : Schema} (hschema : ofDeclarations declarations = .ok schema)
include hschema

theorem rulesAt_of_mem_rules {entry : TreePath × List Rule} (hmem : entry ∈ schema.rules.entries) :
    rulesAt declarations schema.references entry.1 = .ok entry.2 := by
  obtain ⟨hrules, -, hreferences, -⟩ := ofDeclarations_eq_ok.mp hschema
  obtain ⟨path, -, rfl, hrules⟩ := exists_of_forall₂_right hrules hmem
  rw [hreferences]
  exact hrules

theorem rulesAt_of_get? {path : TreePath} {rules : List Rule} (h : schema.rules.get? path = some rules) :
    rulesAt declarations schema.references path = .ok rules :=
  rulesAt_of_mem_rules hschema (mem_of_lookup h)

theorem allowedSets_eq_compiledSets {path : TreePath} {rules : List Rule}
    (h : schema.rules.get? path = some rules) (name : String) :
    allowedSets schema.references rules name = compiledSets rules name := by
  refine List.flatMap_congr fun rule hmem => ?_
  obtain ⟨kind, -, hcompiled⟩ := mem_rulesAt (rulesAt_of_get? hschema h) hmem
  refine filterMap_eq_of_forall₂ (fun entry field hfield => ?_) (forall₂_compiledFields hcompiled)
  simp only [hfield.1, hfield.2]

end

/-! ## The table of domains -/

def addDomain (domains : Table (List Json)) (entry : TreePath × Predicate) : Table (List Json) :=
  match entry.2 with
  | .oneOf allowed => domains.insert entry.1 (plainValues allowed)
  | _ => domains

def domainFields (rules : List (TreePath × List Rule)) : List (TreePath × Predicate) :=
  rules.flatMap fun (path, rules) => rules.flatMap fun rule =>
    rule.compiledFields.map fun (name, predicate) => (path.childKey name, predicate)

theorem domainsOf_eq (rules : List (TreePath × List Rule)) :
    domainsOf rules = (domainFields rules).foldl addDomain Table.empty := by
  have hfields : domainFields rules = rules.flatMap fun (path, rules) => rules.flatMap fun rule =>
      match rule.assertion with
      | .exactFields fields => fields.map fun (name, rule) => (path.childKey name, rule)
      | _ => [] := by
    refine List.flatMap_congr fun entry _ => List.flatMap_congr fun rule _ => ?_
    unfold Rule.compiledFields
    cases rule.assertion <;> rfl
  rw [hfields]
  rfl

/-- Of the allowed sets recorded at a path the last one stays. -/
theorem get?_foldl_addDomain (path : TreePath) :
    ∀ (entries : List (TreePath × Predicate)) (domains : Table (List Json)),
    (entries.foldl addDomain domains).get? path =
      ((entries.filterMap fun entry => if entry.1 = path then entry.2.allowed? else none).getLast?.map
        plainValues).or (domains.get? path)
  | [], domains => rfl
  | (place, predicate) :: rest, domains => by
    rw [List.foldl_cons, get?_foldl_addDomain path rest, List.filterMap_cons]
    by_cases hp : place = path
    · cases predicate with
      | oneOf allowed =>
        simp only [addDomain, Table.get?_insert, hp, if_pos, Predicate.allowed?, List.getLast?_cons]
        cases (rest.filterMap _).getLast? <;> rfl
      | _ => simp [addDomain, Predicate.allowed?]
    · have hget : (addDomain domains (place, predicate)).get? path = domains.get? path := by
        unfold addDomain
        cases predicate with
        | oneOf allowed => simp only [Table.get?_insert, if_neg (Ne.symm hp)]
        | _ => rfl
      rw [hget, if_neg hp]

theorem filterMap_domainFields (path : TreePath) (name : String) (rules : List (TreePath × List Rule)) :
    ((domainFields rules).filterMap fun entry =>
      if entry.1 = path.childKey name then entry.2.allowed? else none) =
      rules.flatMap fun entry => if entry.1 = path then compiledSets entry.2 name else [] := by
  unfold domainFields compiledSets
  rw [List.filterMap_flatMap]
  refine List.flatMap_congr fun entry _ => ?_
  rw [List.filterMap_flatMap]
  by_cases hp : entry.1 = path
  · rw [if_pos hp]
    simp only [List.filterMap_map, Function.comp_def, TreePath.childKey_inj, hp, true_and]
  · simp [TreePath.childKey_inj, hp]

/-- **Domains.** The domain of a field is the last allowed set that the rules at its mapping give to it,
less the wildcard. -/
theorem domain_eq {declarations : List Declaration} {schema : Schema}
    (hschema : ofDeclarations declarations = .ok schema) {path : TreePath} {rules : List Rule}
    (h : schema.rules.get? path = some rules) (name : String) :
    schema.domains.get? (path.childKey name) =
      (allowedSets schema.references rules name).getLast?.map plainValues := by
  have hdomains := (ofDeclarations_eq_ok.mp hschema).2.2.2.2
  rw [hdomains, domainsOf_eq, get?_foldl_addDomain, filterMap_domainFields, Table.get?_empty, Option.or_none,
    allowedSets_eq_compiledSets hschema h]
  congr 1
  -- every entry for the path holds the same rules
  refine getLast?_flatMap_const (fun entry hmem => ?_) ⟨(path, rules), mem_of_lookup h, if_pos rfl⟩
  by_cases hp : entry.1 = path
  · have hentry := rulesAt_of_mem_rules hschema hmem
    rw [hp, rulesAt_of_get? hschema h] at hentry
    cases hentry
    exact Or.inr (if_pos hp)
  · exact Or.inl (if_neg hp)

theorem exists_oneOf {declarations : List Declaration} {schema : Schema}
    (hschema : ofDeclarations declarations = .ok schema) {path : TreePath} {rules : List Rule}
    (h : schema.rules.get? path = some rules) {name : String} {allowed : List Json}
    (hmem : allowed ∈ allowedSets schema.references rules name) :
    ∃ rule ∈ rules, ∃ fields, rule.assertion = .exactFields fields ∧ (name, .oneOf allowed) ∈ fields := by
  rw [allowedSets_eq_compiledSets hschema h] at hmem
  obtain ⟨rule, hrule, hmem⟩ := List.mem_flatMap.mp hmem
  obtain ⟨⟨field, predicate⟩, hfield, hmem⟩ := List.mem_filterMap.mp hmem
  refine ⟨rule, hrule, ?_⟩
  unfold Rule.compiledFields at hfield
  cases hassertion : rule.assertion with
  | exactFields fields =>
    rw [hassertion] at hfield
    by_cases hname : field = name
    · cases predicate with
      | oneOf set =>
        simp only [if_pos hname, Predicate.allowed?, Option.some.injEq] at hmem
        exact ⟨fields, rfl, by rw [← hname, ← hmem]; exact hfield⟩
      | _ => simp [Predicate.allowed?] at hmem
    · simp [hname] at hmem
  | _ => rw [hassertion] at hfield; cases hfield

end Schema

/-! ## What a schema takes from its document -/

def Content.written? : Content → Option Json
  | .assertion _ expectation => some expectation
  | .reference _ value => some value
  | _ => none

namespace Declaration

theorem written?_contentOf {path : TreePath} {key : String} {value : Json} {content : Content}
    (h : contentOf path key value = .ok content) {written : Json} (hw : content.written? = some written) :
    written = value := by
  unfold contentOf at h
  split at h
  · cases h; cases hw; rfl
  · split at h
    · cases h; cases hw; rfl
    · split at h
      · obtain ⟨marker, -, rfl⟩ := Except.map_eq_ok.mp h; cases hw
      · cases h

theorem written_hasDistinctKeys (node : Json) : ∀ {path : TreePath} {found : List Declaration},
    node.hasDistinctKeys = true → ofNode path node = .ok found → ∀ declaration ∈ found, ∀ value,
      declaration.content.written? = some value → value.hasDistinctKeys = true := by
  induction node using Json.children_induction with
  | step node ih =>
    intro path found hnode h declaration hmem value hvalue
    obtain ⟨fields, inside, rfl, hinside, rfl⟩ := ofNode_eq_ok.mp h
    obtain ⟨parts, hparts, rfl⟩ := (ofFields_eq_ok _ _).mp hinside
    rcases List.mem_cons.mp hmem with rfl | hmem
    · cases hvalue
    · obtain ⟨part, hpart, hmem⟩ := List.mem_flatten.mp hmem
      obtain ⟨⟨key, child⟩, hentry, hfound⟩ := exists_of_forall₂_right hparts hpart
      have hchild : (Segment.ofKey key, child) ∈ (Json.obj fields).children := List.mem_map.mpr ⟨_, hentry, rfl⟩
      have hdistinct := Json.hasDistinctKeys_of_child hnode hchild
      unfold ofEntry at hfound
      split at hfound
      · exact ih _ child hchild hdistinct hfound declaration hmem value hvalue
      · obtain ⟨content, hcontent, rfl⟩ := Except.map_eq_ok.mp hfound
        obtain rfl := List.mem_singleton.mp hmem
        rw [written?_contentOf (Except.mapError_eq_ok.mp hcontent) hvalue]
        exact hdistinct

end Declaration

namespace References

def HasDistinctKeys (references : References) : Prop := ∀ entry ∈ references, entry.2.hasDistinctKeys = true

theorem descend_hasDistinctKeys : ∀ (keys : List String) {value found : Json}, value.hasDistinctKeys = true →
    descend value keys = some found → found.hasDistinctKeys = true
  | [], value, found, hvalue, h => by rw [descend] at h; cases h; exact hvalue
  | key :: rest, value, found, hvalue, h => by
    cases value with
    | obj fields =>
      obtain ⟨child, hchild, h⟩ := Option.bind_eq_some_iff.mp h
      exact descend_hasDistinctKeys rest ((Json.hasDistinctKeys_obj.mp hvalue).2 _ (mem_of_lookup hchild)) h
    | _ => cases h

variable {references : References} (h : references.HasDistinctKeys)
include h

theorem find?_hasDistinctKeys {target : String} {value : Json} (hfind : references.find? target = some value) :
    value.hasDistinctKeys = true := by
  unfold find? at hfind
  split at hfind
  · cases hfind
  · obtain ⟨top, htop, hfind⟩ := Option.bind_eq_some_iff.mp hfind
    exact descend_hasDistinctKeys _ (h _ (mem_of_lookup htop)) hfind

theorem resolve_hasDistinctKeys {token : ReferenceToken} {value : Json}
    (hresolve : references.resolve token = .ok value) : value.hasDistinctKeys = true := by
  unfold resolve at hresolve
  split at hresolve
  · next hfind => cases hresolve; exact find?_hasDistinctKeys h hfind
  · cases hresolve
    refine Json.hasDistinctKeys_arr.mpr fun item hitem => ?_
    obtain ⟨key, -, rfl⟩ := List.mem_map.mp hitem
    rfl
  · cases hresolve

theorem allowedSet?_hasDistinctKeys {raw : Json} (hraw : raw.hasDistinctKeys = true) {allowed : List Json}
    (hallowed : references.allowedSet? raw = some allowed) : ∀ value ∈ allowed, value.hasDistinctKeys = true := by
  cases raw with
  | arr items => cases hallowed; exact Json.hasDistinctKeys_arr.mp hraw
  | str text =>
    obtain ⟨token, -, hallowed⟩ := Option.bind_eq_some_iff.mp hallowed
    obtain ⟨value, hvalue, hallowed⟩ := Option.bind_eq_some_iff.mp hallowed
    cases hresolve : references.resolve token with
    | error defect => rw [hresolve] at hvalue; cases hvalue
    | ok found =>
      rw [hresolve] at hvalue
      cases hvalue
      cases value with
      | arr items => cases hallowed; exact Json.hasDistinctKeys_arr.mp (resolve_hasDistinctKeys h hresolve)
      | _ => cases hallowed
  | _ => cases hallowed

theorem writtenFields_hasDistinctKeys {rule : Rule} (hrule : rule.expectation.hasDistinctKeys = true) :
    ∀ entry ∈ rule.writtenFields references, entry.2.hasDistinctKeys = true := by
  intro entry hmem
  unfold Rule.writtenFields at hmem
  split at hmem
  · next fields _ hfields =>
    have hresolved : (Json.obj fields).hasDistinctKeys = true := by
      unfold resolveIfToken at hfields
      split at hfields
      · exact resolve_hasDistinctKeys h hfields
      · rw [← Except.ok.inj hfields]; exact hrule
    exact (Json.hasDistinctKeys_obj.mp hresolved).2 entry hmem
  · cases hmem

theorem allowedSets_hasDistinctKeys {rules : List Rule}
    (hrules : ∀ rule ∈ rules, rule.expectation.hasDistinctKeys = true) {name : String} {allowed : List Json}
    (hmem : allowed ∈ allowedSets references rules name) : ∀ value ∈ allowed, value.hasDistinctKeys = true := by
  obtain ⟨rule, hrule, hmem⟩ := List.mem_flatMap.mp hmem
  obtain ⟨⟨field, raw⟩, hfield, hmem⟩ := List.mem_filterMap.mp hmem
  have hraw := writtenFields_hasDistinctKeys h (hrules rule hrule) _ hfield
  exact allowedSet?_hasDistinctKeys h hraw (Option.ite_none_right_eq_some.mp hmem).2

end References

namespace Schema

theorem mem_foldl_references {entry : String × Json} : ∀ {declarations : List Declaration} {references : References},
    entry ∈ declarations.foldl (fun references declaration =>
      match declaration.content with
      | .reference name value => Fields.set references name value
      | _ => references) references →
    entry ∈ references ∨ ∃ declaration ∈ declarations, declaration.content.written? = some entry.2
  | [], _, h => Or.inl h
  | ⟨path, content⟩ :: rest, references, h => by
    rw [List.foldl_cons] at h
    rcases mem_foldl_references h with h | ⟨declaration, hmem, hw⟩
    · cases content with
      | reference name value =>
        rcases Fields.mem_set h with h | rfl
        · exact Or.inl h
        · exact Or.inr ⟨_, List.mem_cons_self .., rfl⟩
      | _ => exact Or.inl h
    · exact Or.inr ⟨declaration, List.mem_cons_of_mem _ hmem, hw⟩

theorem mem_referencesOf {entry : String × Json} {declarations : List Declaration}
    (h : entry ∈ referencesOf declarations) : ∃ declaration ∈ declarations,
      declaration.content.written? = some entry.2 :=
  (mem_foldl_references h).resolve_left (nomatch ·)

/-- Of a document with distinct keys, the members of the allowed sets have distinct keys. -/
theorem members_hasDistinctKeys {document : Json} {schema : Schema} (hcompile : compile document = .ok schema)
    (hdocument : document.hasDistinctKeys = true) {path : TreePath} {rules : List Rule}
    (h : schema.rules.get? path = some rules) {name : String} {allowed : List Json}
    (hmem : allowed ∈ allowedSets schema.references rules name) :
    ∀ value ∈ allowed, value.hasDistinctKeys = true := by
  obtain ⟨declarations, hdeclared, hschema⟩ := compile_eq_ok.mp hcompile
  have hwritten := Declaration.written_hasDistinctKeys document hdocument hdeclared
  refine References.allowedSets_hasDistinctKeys (fun entry hentry => ?_) (fun rule hrule => ?_) hmem
  · rw [(ofDeclarations_eq_ok.mp hschema).2.2.1] at hentry
    obtain ⟨declaration, hd, hw⟩ := mem_referencesOf hentry
    exact hwritten declaration hd _ hw
  · obtain ⟨kind, hd, -⟩ := mem_rulesAt (rulesAt_of_get? hschema h) hrule
    exact hwritten _ hd _ rfl

end Schema

end TestMatrix
