import TestMatrix.Proofs.Outcomes
import TestMatrix.Proofs.Tables
import TestMatrix.Spec.Check

/-!
# What assertions demand

`Check` looks for the first violation. Here the same assertions are conditions on a value, without
an order in which they are tried, and a check finds no violation exactly when they hold.
-/

namespace TestMatrix

namespace Fields

theorem lookup_isSome_iff {fields : Fields} {name : String} :
    (fields.lookup name).isSome = true ↔ name ∈ fields.keys := by
  unfold keys
  induction fields with
  | nil => simp
  | cons entry rest ih =>
    rw [lookup_cons_ite, List.map_cons, List.mem_cons, ← ih]
    by_cases h : name = entry.1 <;> simp [h]

/-- The keys of the mapping are these names and no others. -/
def HasExactly (fields : Fields) (names : List String) : Prop :=
  (∀ name ∈ names, name ∈ fields.keys) ∧ ∀ name ∈ fields.keys, name ∈ names

end Fields

/-- The value, or every item of a list, is in the allowed set. The wildcard stands for the whole set,
but not inside a list. -/
def Json.DrawnFrom (allowed : List Json) : Json → Prop
  | .arr items => ∀ item ∈ items, item.isWildcard = false ∧ item.isAmong allowed = true
  | value => value.isWildcard = true ∨ value.isAmong allowed = true

section
variable (isFile : String → Bool)

mutual
def Predicate.Holds : Predicate → Json → Prop
  | .nonEmptyString, value => ∃ text, value = .str text ∧ text ≠ ""
  | .nonEmptyList, value => ∃ items, value = .arr items ∧ items ≠ []
  | .nonEmptyDict, value => ∃ fields, value = .obj fields ∧ fields ≠ []
  | .integer, value => ∃ n, value = .num (.int n)
  | .existingFile, value => ∃ name, value = .str name ∧ isFile name = true
  | .oneOf allowed, value => value.DrawnFrom allowed
  | .fields rules, value =>
    ∃ fields : Fields, value = .obj fields ∧ fields.HasExactly (rules.map Prod.fst) ∧
      Predicate.AllHold fields rules
def Predicate.AllHold (fields : Fields) : List (String × Predicate) → Prop
  | [] => True
  | (name, rule) :: rest =>
    (∀ value, fields.lookup name = some value → rule.Holds value) ∧ Predicate.AllHold fields rest
end

def Assertion.Holds : Assertion → Json → Prop
  | .exactFields rules, value =>
    ∃ fields : Fields, value = .obj fields ∧ fields.HasExactly (rules.map Prod.fst) ∧
      ∀ name rule, (name, rule) ∈ rules →
        ∀ value, fields.lookup name = some value → rule.Holds isFile value
  | .exactKeys keys, value => ∃ fields : Fields, value = .obj fields ∧ fields.HasExactly keys
  | .eachValue rule, value =>
    value.isContainer = true ∧ ∀ segment child, (segment, child) ∈ value.children → rule.Holds isFile child

theorem Predicate.allHold_iff (fields : Fields) : ∀ rules : List (String × Predicate),
    Predicate.AllHold isFile fields rules ↔ ∀ name rule, (name, rule) ∈ rules →
      ∀ value, fields.lookup name = some value → rule.Holds isFile value
  | [] => by simp [Predicate.AllHold]
  | (name, rule) :: rest => by
    rw [Predicate.AllHold, Predicate.allHold_iff fields rest]
    constructor
    · rintro ⟨hhere, hrest⟩ name' rule' hmem value hlookup
      rcases List.mem_cons.mp hmem with h | h
      · cases h; exact hhere value hlookup
      · exact hrest name' rule' h value hlookup
    · intro h
      exact ⟨h name rule (List.mem_cons_self ..),
        fun name' rule' hmem => h name' rule' (List.mem_cons_of_mem _ hmem)⟩

/-! ## Checks find no violation where the conditions hold -/

namespace Check

theorem expectDict_ok {value : Json} {fields : Fields} :
    expectDict value = .ok fields ↔ value = .obj fields := by
  cases value <;> simp [expectDict]

theorem exactKeys_ok {expected : List String} {fields : Fields} :
    exactKeys expected fields = .ok () ↔ fields.HasExactly expected := by
  unfold exactKeys Fields.HasExactly
  split
  · next key hfind =>
    have hmem := List.mem_of_find?_eq_some hfind
    have hnone := List.find?_some hfind
    refine ⟨(nomatch ·), fun ⟨h, _⟩ => ?_⟩
    have := Fields.lookup_isSome_iff.mpr (h key hmem)
    rw [Option.isSome_iff_ne_none] at this
    exact absurd (Option.isNone_iff_eq_none.mp hnone) this
  · next hnone =>
    have hall : ∀ name ∈ expected, name ∈ fields.keys := by
      intro name hmem
      have := List.find?_eq_none.mp hnone name hmem
      rw [← Fields.lookup_isSome_iff]
      cases h : fields.lookup name with
      | none => simp [h] at this
      | some _ => rfl
    split
    · next key hfind =>
      have hmem := List.mem_of_find?_eq_some hfind
      have hnot := List.find?_some hfind
      refine ⟨(nomatch ·), fun ⟨_, h⟩ => ?_⟩
      simp [h key hmem] at hnot
    · next hnone' =>
      refine ⟨fun _ => ⟨hall, fun name hmem => ?_⟩, fun _ => rfl⟩
      simpa using List.find?_eq_none.mp hnone' name hmem

theorem items_ok (field : String) (allowed : List Json) : ∀ list : List Json,
    items field allowed list = .ok () ↔
      ∀ item ∈ list, item.isWildcard = false ∧ item.isAmong allowed = true
  | [] => by simp [items]
  | item :: rest => by
    rw [items, List.forall_mem_cons]
    by_cases hwild : item.isWildcard = true
    · simp [hwild]
    · rw [if_neg hwild]
      by_cases hamong : item.isAmong allowed = true
      · rw [if_pos hamong, items_ok field allowed rest]
        simp [hwild, hamong]
      · simp [hamong]

theorem membership_ok (field : String) (allowed : List Json) (value : Json) :
    membership field allowed value = .ok () ↔ value.DrawnFrom allowed := by
  cases value with
  | arr list => exact items_ok field allowed list
  | _ =>
    simp only [membership, Json.DrawnFrom, Bool.or_eq_true]
    split
    · next h => exact ⟨fun _ => h, fun _ => rfl⟩
    · next h => exact ⟨fun hok => absurd hok (by simp), fun h' => absurd h' h⟩

mutual
theorem predicate_ok (field : String) (value : Json) : ∀ rule : Predicate,
    predicate isFile field value rule = .ok () ↔ rule.Holds isFile value
  | .nonEmptyString => by
    cases value <;> simp [predicate, Predicate.Holds]
  | .nonEmptyList => by
    cases value <;> simp [predicate, Predicate.Holds]
  | .nonEmptyDict => by
    cases value <;> simp [predicate, Predicate.Holds]
  | .integer => by
    cases value with
    | num n => cases n <;> simp [predicate, Predicate.Holds]
    | _ => simp [predicate, Predicate.Holds]
  | .existingFile => by
    cases value <;> simp [predicate, Predicate.Holds]
  | .oneOf allowed => by
    rw [predicate, Predicate.Holds]; exact membership_ok field allowed value
  | .fields rules => by
    simp only [predicate, Predicate.Holds, Except.bind_eq_ok, expectDict_ok]
    refine exists_congr fun fields => and_congr_right fun _ => ?_
    rw [← exactKeys_ok, ← predicates_ok fields rules]
    exact exists_unit_iff
theorem predicates_ok (fields : Fields) : ∀ rules : List (String × Predicate),
    predicates isFile fields rules = .ok () ↔ Predicate.AllHold isFile fields rules
  | [] => by simp [predicates, Predicate.AllHold]
  | (name, rule) :: rest => by
    rw [predicates, Predicate.AllHold, ← predicates_ok fields rest]
    cases hlookup : fields.lookup name with
    | none => simp only [Except.bind_unit_eq_ok]; simp
    | some value => simp only [Except.bind_unit_eq_ok, predicate_ok name value rule]; simp
end

theorem assertion_ok (value : Json) (demand : Assertion) :
    assertion isFile value demand = .ok () ↔ demand.Holds isFile value := by
  cases demand with
  | exactFields rules =>
    simp only [assertion, Assertion.Holds, Except.bind_eq_ok, expectDict_ok]
    refine exists_congr fun fields => and_congr_right fun _ => ?_
    rw [← exactKeys_ok, ← Predicate.allHold_iff, ← predicates_ok isFile fields rules]
    exact exists_unit_iff
  | exactKeys keys =>
    simp only [assertion, Assertion.Holds, Except.bind_eq_ok, expectDict_ok, exactKeys_ok]
  | eachValue rule =>
    cases value with
    | obj fields =>
      simp only [assertion, Assertion.Holds, Except.forM_eq_ok, predicate_ok]
      constructor
      · rintro h
        refine ⟨rfl, fun segment child hmem => ?_⟩
        obtain ⟨entry, hentry, he⟩ := List.mem_map.mp hmem
        cases he; exact h entry hentry
      · rintro ⟨-, h⟩ ⟨name, item⟩ hmem
        exact h _ item (List.mem_map.mpr ⟨(name, item), hmem, rfl⟩)
    | arr list =>
      simp only [assertion, Assertion.Holds, Except.forM_eq_ok, predicate_ok]
      constructor
      · rintro h
        refine ⟨rfl, fun segment child hmem => ?_⟩
        obtain ⟨entry, hentry, he⟩ := List.mem_map.mp hmem
        cases he; exact h entry hentry
      · rintro ⟨-, h⟩ ⟨item, position⟩ hmem
        exact h _ item (List.mem_map.mpr ⟨(item, position), hmem, rfl⟩)
    | _ => simp [assertion, Assertion.Holds, Json.isContainer]

end Check

end

end TestMatrix
