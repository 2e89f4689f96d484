import TestMatrix.Proofs.DistinctKeys
import TestMatrix.Proofs.Outline
import TestMatrix.Proofs.Satisfaction

/-!
# What a `when` block says

A block is looked through for issues and then decoded, and each of the two passes lets something through
that the other refuses. Together they read one grammar: lists of rules with the two entries of a rule, of
pairs of texts, and of actions with the fields that they need.
-/

namespace TestMatrix

/-! ## The grammar -/

inductive When.PairWritten : Json → String × String → Prop
  | texts (left right : String) : PairWritten (.arr [.str left, .str right]) (left, right)

/-- An action has the fields of its kind, and may have others. -/
inductive WhenAction.Written : Json → WhenAction → Prop
  | generate {fields : Fields} {path : String} {content : Json} {template : TemplateSource} :
    fields.lookup "action" = some (.str "generate") → fields.lookup "path" = some (.str path) →
    fields.lookup "template" = some content → TemplateSource.Written content template →
    Written (.obj fields) (.generate path template)
  | setExtension {fields : Fields} {key template : String} :
    fields.lookup "action" = some (.str "set_extension") → fields.lookup "key" = some (.str key) →
    fields.lookup "template" = some (.str template) → Written (.obj fields) (.setExtension key template)

/-- A rule has its two entries and no others. -/
inductive WhenRule.Written : Json → WhenRule → Prop
  | entries {fields : Fields} {pairs actions : List Json} {rule : WhenRule} :
    fields.HasExactly ["match_any", "do"] →
    fields.lookup "match_any" = some (.arr pairs) → List.Forall₂ When.PairWritten pairs rule.pairs →
    fields.lookup "do" = some (.arr actions) → List.Forall₂ WhenAction.Written actions rule.actions →
    Written (.obj fields) rule

inductive When.Written : Json → List WhenRule → Prop
  | rules {items : List Json} {rules : List WhenRule} : List.Forall₂ WhenRule.Written items rules →
    Written (.arr items) rules

namespace When

/-! ## Decoding -/

theorem decodePair?_eq_some {raw : Json} {pair : String × String} :
    decodePair? raw = some pair ↔ PairWritten raw pair := by
  constructor
  · intro h
    unfold decodePair? at h
    split at h
    · cases h; exact .texts _ _
    · cases h
  · intro h
    cases h
    rfl

theorem bind_arr?_eq_some {value : Option Json} {items : List Json} :
    value.bind Json.arr? = some items ↔ value = some (.arr items) := by
  have harr : ∀ value : Json, value.arr? = some items ↔ value = .arr items := by
    intro value
    cases value <;> simp [Json.arr?]
  simp [Option.bind_eq_some_iff, harr]

theorem bind_str?_eq_some {value : Option Json} {text : String} :
    value.bind Json.str? = some text ↔ value = some (.str text) := by
  simp [Option.bind_eq_some_iff, Json.str?_eq_some]

theorem decodeAction?_eq_some {raw : Json} {action : WhenAction} :
    decodeAction? raw = some action ↔ WhenAction.Written raw action := by
  constructor
  · intro h
    unfold decodeAction? at h
    split at h
    · dsimp only at h
      split at h
      next haction =>
        obtain ⟨path, hpath, h⟩ := Option.bind_eq_some_iff.mp h
        obtain ⟨template, htemplate, h⟩ := Option.bind_eq_some_iff.mp h
        obtain ⟨content, hcontent, hread⟩ := Option.bind_eq_some_iff.mp htemplate
        cases h
        exact .generate (bind_str?_eq_some.mp haction) (bind_str?_eq_some.mp hpath) hcontent
          (TemplateSource.ofJson?_eq_some.mp hread)
      next haction =>
        obtain ⟨key, hkey, h⟩ := Option.bind_eq_some_iff.mp h
        obtain ⟨template, htemplate, h⟩ := Option.bind_eq_some_iff.mp h
        cases h
        exact .setExtension (bind_str?_eq_some.mp haction) (bind_str?_eq_some.mp hkey)
          (bind_str?_eq_some.mp htemplate)
      next => cases h
    · cases h
  · intro h
    cases h with
    | generate haction hpath hcontent htemplate =>
      simp [decodeAction?, haction, hpath, hcontent, TemplateSource.ofJson?_eq_some.mpr htemplate, Json.str?]
    | setExtension haction hkey htemplate => simp [decodeAction?, haction, hkey, htemplate, Json.str?]

theorem decodeRule?_eq_some {raw : Json} {rule : WhenRule} : decodeRule? raw = some rule ↔
    ∃ fields pairs actions, raw = .obj fields ∧
      fields.lookup "match_any" = some (.arr pairs) ∧ List.Forall₂ PairWritten pairs rule.pairs ∧
      fields.lookup "do" = some (.arr actions) ∧ List.Forall₂ WhenAction.Written actions rule.actions := by
  constructor
  · intro h
    unfold decodeRule? at h
    split at h
    next fields =>
      obtain ⟨pairs, hpairs, h⟩ := Option.bind_eq_some_iff.mp h
      obtain ⟨actions, hactions, h⟩ := Option.bind_eq_some_iff.mp h
      obtain ⟨decodedPairs, hdecodedPairs, h⟩ := Option.bind_eq_some_iff.mp h
      obtain ⟨decodedActions, hdecodedActions, h⟩ := Option.bind_eq_some_iff.mp h
      cases h
      simp only [Option.mapM_eq_some, decodePair?_eq_some, decodeAction?_eq_some] at hdecodedPairs hdecodedActions
      exact ⟨fields, pairs, actions, rfl, bind_arr?_eq_some.mp hpairs, hdecodedPairs, bind_arr?_eq_some.mp hactions,
        hdecodedActions⟩
    next => cases h
  · intro h
    obtain ⟨fields, pairs, actions, rfl, hpairs, hdecodedPairs, hactions, hdecodedActions⟩ := h
    have hpairs' : pairs.mapM decodePair? = some rule.pairs :=
      (Option.mapM_eq_some _ _).mpr (hdecodedPairs.imp fun _ _ => decodePair?_eq_some.mpr)
    have hactions' : actions.mapM decodeAction? = some rule.actions :=
      (Option.mapM_eq_some _ _).mpr (hdecodedActions.imp fun _ _ => decodeAction?_eq_some.mpr)
    simp [decodeRule?, hpairs, hactions, Json.arr?, hpairs', hactions']

/-! ## Issues -/

theorem mem_positions {items : List Json} {item : Json} (h : item ∈ items) :
    ∃ position, (position, item) ∈ positions items := by
  obtain ⟨index, hindex⟩ := List.mem_iff_getElem?.mp h
  exact ⟨toString index, List.mem_map.mpr ⟨(item, index), List.mem_zipIdx_iff_getElem?.mpr hindex, rfl⟩⟩

theorem mem_of_mem_positions {items : List Json} {entry : String × Json} (h : entry ∈ positions items) :
    entry.2 ∈ items := by
  obtain ⟨⟨item, index⟩, hmem, rfl⟩ := List.mem_map.mp h
  exact List.fst_mem_of_mem_zipIdx hmem

theorem pairIssues_eq_nil {place : List String} {raw : Json} :
    pairIssues place raw = [] ↔ ∃ pair, PairWritten raw pair := by
  constructor
  · intro h
    cases raw with
    | arr items =>
      unfold pairIssues at h
      rw [List.append_eq_nil_iff, List.flatMap_eq_nil_iff] at h
      obtain ⟨hitems, hlength⟩ := h
      have htexts : ∀ item ∈ items, ∃ text, item = .str text := by
        intro item hitem
        obtain ⟨position, hposition⟩ := mem_positions hitem
        have hnone := hitems _ hposition
        cases item with
        | str text => exact ⟨text, rfl⟩
        | _ => cases hnone
      have htwo : items.length = 2 := by
        split_ifs at hlength
        omega
      obtain ⟨first, second, rfl⟩ := List.length_eq_two.mp htwo
      obtain ⟨left, rfl⟩ := htexts first List.mem_cons_self
      obtain ⟨right, rfl⟩ := htexts second (List.mem_cons_of_mem _ List.mem_cons_self)
      exact ⟨_, .texts left right⟩
    | _ => cases h
  · intro h
    obtain ⟨pair, hpair⟩ := h
    cases hpair
    rfl

theorem isTemplateShape_of_written {raw : Json} {template : TemplateSource} (h : TemplateSource.Written raw template) :
    isTemplateShape raw = true := by
  cases h with
  | inline text => rfl
  | external hmain hparts => simp [isTemplateShape, hmain, Json.str?]

theorem isActionShape_of_written {raw : Json} {action : WhenAction} (h : WhenAction.Written raw action) :
    isActionShape raw = true := by
  cases h with
  | generate haction hpath hcontent htemplate =>
    have hshape := isTemplateShape_of_written htemplate
    simp [isActionShape, haction, hpath, hcontent, hshape, Json.str?]
  | setExtension haction hkey htemplate => simp [isActionShape, haction, hkey, htemplate, Json.str?]

theorem actionIssues_eq_nil {place : List String} {raw : Json} :
    actionIssues place raw = [] ↔ isActionShape raw = true := by
  unfold actionIssues
  cases isActionShape raw <;> simp

/-- The entries of a rule that is written have no issues below them. -/
theorem entryIssues_of_written {place : List String} {fields : Fields} {rule : WhenRule}
    (h : WhenRule.Written (.obj fields) rule) {name : String} {value : Json}
    (hvalue : fields.lookup name = some value) : entryIssues place name value = [] := by
  cases h with
  | entries hkeys hpairs hpairsWritten hactions hactionsWritten =>
    unfold entryIssues
    dsimp only
    split
    next =>
      rw [hpairs] at hvalue
      cases hvalue
      dsimp only
      rw [List.flatMap_eq_nil_iff]
      intro entry hentry
      obtain ⟨pair, -, hpair⟩ := exists_of_forall₂_right hpairsWritten.flip (mem_of_mem_positions hentry)
      exact pairIssues_eq_nil.mpr ⟨pair, hpair⟩
    next =>
      rw [hactions] at hvalue
      cases hvalue
      dsimp only
      rw [List.flatMap_eq_nil_iff]
      intro entry hentry
      obtain ⟨action, -, haction⟩ := exists_of_forall₂_right hactionsWritten.flip (mem_of_mem_positions hentry)
      exact actionIssues_eq_nil.mpr (isActionShape_of_written haction)
    next => rfl

/-- Beside what stands below its entries, a rule has issues when it has not just its two entries. -/
theorem ruleIssues_eq_nil {place : List String} {fields : Fields} : ruleIssues place (.obj fields) = [] ↔
    fields.HasExactly ["match_any", "do"] ∧ ∀ entry ∈ fields, entryIssues place entry.1 entry.2 = [] := by
  have hmissing : (["do", "match_any"].filter fun name => (fields.lookup name).isNone) = [] ↔
      ∀ name ∈ ["match_any", "do"], name ∈ fields.keys := by
    simp [List.filter_eq_nil_iff, ← Fields.lookup_isSome_iff, and_comm]
  have hunexpected : (fields.keys.filter fun name => name != "do" && name != "match_any") = [] ↔
      ∀ name ∈ fields.keys, name ∈ ["match_any", "do"] := by
    rw [List.filter_eq_nil_iff]
    refine forall₂_congr fun name _ => ?_
    by_cases hdo : name = "do" <;> simp [hdo]
  have hlast : ∀ names : List String,
      (if names.isEmpty = true then [] else [(⟨place, .unexpected names⟩ : WhenIssue)]) = [] ↔ names = [] := by
    intro names
    cases names <;> simp
  unfold ruleIssues Fields.HasExactly
  simp only [List.append_eq_nil_iff, List.map_eq_nil_iff, List.flatMap_eq_nil_iff, hmissing, hlast, hunexpected]
  exact and_right_comm

theorem ruleIssues_of_written {place : List String} {raw : Json} {rule : WhenRule}
    (hdistinct : raw.hasDistinctKeys = true) (h : WhenRule.Written raw rule) : ruleIssues place raw = [] := by
  have hwritten := h
  cases h with
  | entries hkeys =>
    refine ruleIssues_eq_nil.mpr ⟨hkeys, fun entry hentry => ?_⟩
    have hlookup := Fields.lookup_of_mem (Json.hasDistinctKeys_obj.mp hdistinct).1 hentry
    exact entryIssues_of_written hwritten hlookup

/-- The two passes read the grammar. Documents repeat no key; where one is repeated, only the first
entry is decoded, but all are looked through. -/
theorem parse_eq_ok {block : Json} (h : block.hasDistinctKeys = true) {rules : List WhenRule} :
    parse block = .ok rules ↔ Written block rules := by
  constructor
  · intro hparse
    unfold parse at hparse
    split at hparse
    next hissues =>
      split at hparse
      next decoded hdecode =>
        cases hparse
        cases block with
        | arr items =>
          have hdecoded := (Option.mapM_eq_some _ _).mp hdecode
          have hnone : ∀ item ∈ items, ∃ place, ruleIssues place item = [] := by
            intro item hitem
            obtain ⟨position, hposition⟩ := mem_positions hitem
            exact ⟨[position], List.flatMap_eq_nil_iff.mp hissues _ hposition⟩
          refine .rules (((List.forall₂_and_left _ _).mpr ⟨hnone, hdecoded⟩).imp fun item rule hitem => ?_)
          obtain ⟨⟨place, hplace⟩, hrule⟩ := hitem
          obtain ⟨fields, pairs, actions, rfl, hpairs, hpairsWritten, hactions, hactionsWritten⟩ :=
            decodeRule?_eq_some.mp hrule
          exact .entries (ruleIssues_eq_nil.mp hplace).1 hpairs hpairsWritten hactions hactionsWritten
        | _ => cases hdecode
      next => cases hparse
    next => cases hparse
  · intro hwritten
    cases hwritten with
    | @rules items _ hrules =>
      have hissues : issues (.arr items) = [] := by
        unfold issues
        refine List.flatMap_eq_nil_iff.mpr fun entry hentry => ?_
        have hitem := mem_of_mem_positions hentry
        obtain ⟨rule, -, hrule⟩ := exists_of_forall₂_right hrules.flip hitem
        exact ruleIssues_of_written (Json.hasDistinctKeys_arr.mp h _ hitem) hrule
      have hdecode : items.mapM decodeRule? = some rules := by
        refine (Option.mapM_eq_some _ _).mpr (hrules.imp fun item rule hrule => ?_)
        cases hrule with
        | entries _ hpairs hpairsWritten hactions hactionsWritten =>
          exact decodeRule?_eq_some.mpr ⟨_, _, _, rfl, hpairs, hpairsWritten, hactions, hactionsWritten⟩
      unfold parse
      rw [hissues]
      simp [Json.arr?, hdecode]

end When

namespace Declaration

/-- **A `when` block is read by its grammar.** A block that says rules is read as these, in their order
and with their texts; every other block is refused, with the path that it stands at. -/
theorem block_read {block : Json} (h : block.hasDistinctKeys = true) (path : TreePath) :
    (∀ rules, marker? path "when" block = some (.ok (.conditions rules)) ↔ When.Written block rules) ∧
    ((¬ ∃ rules, When.Written block rules) →
      ∃ fault, marker? path "when" block = some (.error (.invalidWhen path fault))) := by
  constructor
  · intro rules
    rw [← When.parse_eq_ok h]
    cases hparse : When.parse block <;> simp [marker?, hparse]
  · intro hnone
    cases hparse : When.parse block with
    | ok rules => exact absurd ⟨rules, (When.parse_eq_ok h).mp hparse⟩ hnone
    | error fault => exact ⟨fault, by simp [marker?, hparse]⟩

/-- An action with a template of parts and an entry that is passed over. -/
def partedBlock : Json := .arr [.obj [
  ("do", .arr [.obj [("template", .obj [("z", .str "1"), ("main", .str "m"), ("b", .str "2")]),
    ("action", .str "generate"), ("path", .str "p"), ("note", .null)]]),
  ("match_any", .arr [.arr [.str "%(a)s", .str "x"]])]]

theorem parted_block_read : partedBlock.hasDistinctKeys = true ∧
    marker? .root "when" partedBlock = some (.ok (.conditions
      [⟨[("%(a)s", "x")], [.generate "p" (.external "m" [("b", "2"), ("z", "1")])]⟩])) := by
  have hdistinct : partedBlock.hasDistinctKeys = true := by decide
  have hsorted : sortByName [("z", "1"), ("b", "2")] = [("b", "2"), ("z", "1")] := by decide
  refine ⟨hdistinct, ((block_read hdistinct .root).1 _).mpr (.rules (.cons ?_ .nil))⟩
  refine .entries ⟨by decide, by decide⟩ rfl (.cons (.texts _ _) .nil) rfl (.cons ?_ .nil)
  rw [← hsorted]
  exact .generate rfl rfl rfl (.external rfl rfl)

end Declaration

end TestMatrix
