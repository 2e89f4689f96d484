import TestMatrix.Proofs.Domains

/-!
# Unfolding references

A token may stand for a mapping whose fields are written with tokens again. What a predicate stands for
is its unfolding, if it has a finite one. The compiler counts the mappings it has opened one within
another: it reads the finite unfoldings in which no token lies below too many of them, and refuses all
else, endless ones included.
-/

namespace TestMatrix

namespace References

section
variable (references : References)

mutual
/-- What a written predicate stands for, all tokens replaced. -/
inductive Unfolds : Json → Predicate → Prop
  | primitive {name : String} {rule : Predicate} : Predicate.primitive? name = some rule → Unfolds (.str name) rule
  | allowed (values : List Json) : Unfolds (.arr values) (.oneOf values)
  | toList {text : String} {token : ReferenceToken} {values : List Json} : ReferenceToken.parse? text = some token →
    references.resolve token = .ok (.arr values) → Unfolds (.str text) (.oneOf values)
  | toPrimitive {text name : String} {token : ReferenceToken} {rule : Predicate} :
    ReferenceToken.parse? text = some token → references.resolve token = .ok (.str name) →
    Predicate.primitive? name = some rule → Unfolds (.str text) rule
  | toMapping {text : String} {token : ReferenceToken} {fields : Fields} {rules : List (String × Predicate)} :
    ReferenceToken.parse? text = some token → references.resolve token = .ok (.obj fields) →
    UnfoldsAll fields rules → Unfolds (.str text) (.fields rules)
inductive UnfoldsAll : Fields → List (String × Predicate) → Prop
  | nil : UnfoldsAll [] []
  | cons {name : String} {raw : Json} {rule : Predicate} {rest : Fields} {rules : List (String × Predicate)} :
    Unfolds raw rule → UnfoldsAll rest rules → UnfoldsAll ((name, raw) :: rest) ((name, rule) :: rules)
end

/-- From a token to the value of a field of the mapping that it stands for. -/
inductive Opens : Json → Json → Prop
  | field {text name : String} {token : ReferenceToken} {fields : Fields} {inner : Json} :
    ReferenceToken.parse? text = some token → references.resolve token = .ok (.obj fields) →
    (name, inner) ∈ fields → Opens (.str text) inner

/-- A token occurs below this many mappings, opened one within another. -/
inductive TokenBelow : Nat → Json → Prop
  | here {text : String} {token : ReferenceToken} : ReferenceToken.parse? text = some token → TokenBelow 0 (.str text)
  | inside {depth : Nat} {raw inner : Json} : references.Opens raw inner → TokenBelow depth inner →
    TokenBelow (depth + 1) raw

/-- Mappings can be opened one within another without an end. -/
def Endless (raw : Json) : Prop := ∃ chain : Nat → Json, chain 0 = raw ∧ ∀ n, references.Opens (chain n) (chain (n + 1))

end

variable {references : References}

theorem unfoldsAll_iff : ∀ {fields : Fields} {rules : List (String × Predicate)}, references.UnfoldsAll fields rules ↔
    List.Forall₂ (fun entry rule => rule.1 = entry.1 ∧ references.Unfolds entry.2 rule.2) fields rules
  | [], rules => by
    rw [List.forall₂_nil_left_iff]
    constructor
    · intro h; cases h; rfl
    · intro h; rw [h]; exact .nil
  | (name, raw) :: rest, rules => by
    rw [List.forall₂_cons_left_iff]
    constructor
    · intro h
      cases h with
      | cons hraw hrest => exact ⟨_, _, ⟨rfl, hraw⟩, unfoldsAll_iff.mp hrest, rfl⟩
    · intro h
      obtain ⟨⟨name', rule⟩, others, ⟨hname, hrule⟩, hothers, hrules⟩ := h
      cases hname
      rw [hrules]
      exact .cons hrule (unfoldsAll_iff.mpr hothers)

/-- The names of primitives are no tokens. -/
theorem parse?_of_primitive {name : String} {rule : Predicate} (h : Predicate.primitive? name = some rule) :
    ReferenceToken.parse? name = none := by
  unfold Predicate.primitive? at h
  split at h <;> first | rfl | cases h

theorem unfolds_of_not_token {name : String} {rule : Predicate} (h : ReferenceToken.parse? name = none) :
    references.Unfolds (.str name) rule ↔ Predicate.primitive? name = some rule := by
  refine ⟨fun hunfolds => ?_, .primitive⟩
  cases hunfolds with
  | primitive hname => exact hname
  | toList htoken | toPrimitive htoken | toMapping htoken => rw [h] at htoken; cases htoken

theorem not_primitive_of_token {text : String} {token : ReferenceToken} {rule : Predicate}
    (h : ReferenceToken.parse? text = some token) : Predicate.primitive? text ≠ some rule := by
  intro hname
  rw [parse?_of_primitive hname] at h
  cases h

theorem unfolds_token {text : String} {token : ReferenceToken} {rule : Predicate}
    (h : ReferenceToken.parse? text = some token) : references.Unfolds (.str text) rule ↔
      (∃ values, references.resolve token = .ok (.arr values) ∧ rule = .oneOf values) ∨
      (∃ name, references.resolve token = .ok (.str name) ∧ Predicate.primitive? name = some rule) ∨
      ∃ fields rules, references.resolve token = .ok (.obj fields) ∧ references.UnfoldsAll fields rules ∧
        rule = .fields rules := by
  constructor
  · intro hunfolds
    cases hunfolds with
    | primitive hname => exact absurd hname (not_primitive_of_token h)
    | toList htoken hvalue =>
      rw [h] at htoken; cases htoken
      exact .inl ⟨_, hvalue, rfl⟩
    | toPrimitive htoken hvalue hname =>
      rw [h] at htoken; cases htoken
      exact .inr (.inl ⟨_, hvalue, hname⟩)
    | toMapping htoken hvalue hall =>
      rw [h] at htoken; cases htoken
      exact .inr (.inr ⟨_, _, hvalue, hall, rfl⟩)
  · intro hcases
    obtain ⟨values, hvalue, rfl⟩ | ⟨name, hvalue, hname⟩ | ⟨fields, rules, hvalue, hall, rfl⟩ := hcases
    · exact .toList h hvalue
    · exact .toPrimitive h hvalue hname
    · exact .toMapping h hvalue hall

theorem not_tokenBelow {name : String} (h : ReferenceToken.parse? name = none) (depth : Nat) :
    ¬ references.TokenBelow depth (.str name) := by
  intro htoken
  cases htoken with
  | here hparse => rw [h] at hparse; cases hparse
  | inside hopens =>
    cases hopens with
    | field hparse => rw [h] at hparse; cases hparse

theorem tokenBelow_cases (raw : Json) : (∀ depth, ¬ references.TokenBelow depth raw) ∨
    ∃ text token, raw = .str text ∧ ReferenceToken.parse? text = some token := by
  cases raw with
  | str text =>
    cases htoken : ReferenceToken.parse? text with
    | none => exact .inl (not_tokenBelow htoken)
    | some token => exact .inr ⟨text, token, rfl, htoken⟩
  | _ =>
    refine .inl fun depth h => ?_
    cases h with
    | inside hopens => cases hopens

/-- Below a token lie the tokens of what it opens. -/
theorem tokensBelow_iff {text : String} {token : ReferenceToken} {budget : Nat}
    (h : ReferenceToken.parse? text = some token) :
    (∀ depth, references.TokenBelow depth (.str text) → depth < budget + 1) ↔
      ∀ fields, references.resolve token = .ok (.obj fields) → ∀ entry ∈ fields, ∀ depth,
        references.TokenBelow depth entry.2 → depth < budget := by
  constructor
  · intro hall fields hvalue entry hentry depth hdepth
    exact Nat.lt_of_succ_lt_succ (hall _ (.inside (.field h hvalue hentry) hdepth))
  · intro hall depth hdepth
    cases hdepth with
    | here => exact Nat.succ_pos budget
    | inside hopens hinner =>
      cases hopens with
      | field hparse hvalue hmem =>
        rw [h] at hparse
        cases hparse
        exact Nat.succ_lt_succ (hall _ hvalue _ hmem _ hinner)

theorem Opens.tokenBelow {raw inner : Json} (h : references.Opens raw inner) : references.TokenBelow 0 raw := by
  cases h with
  | field hparse => exact .here hparse

theorem Endless.tokenBelow {raw : Json} (h : references.Endless raw) (depth : Nat) :
    references.TokenBelow depth raw := by
  obtain ⟨chain, rfl, hopens⟩ := h
  have hchain : ∀ depth n, references.TokenBelow depth (chain n) := by
    intro depth
    induction depth with
    | zero => exact fun n => (hopens n).tokenBelow
    | succ depth ih => exact fun n => .inside (hopens n) (ih (n + 1))
  exact hchain depth 0

end References

namespace Schema

variable {references : References}

theorem primitive_eq_ok {name : String} {rule : Predicate} :
    primitive name = .ok rule ↔ Predicate.primitive? name = some rule := by
  unfold primitive
  cases Predicate.primitive? name <;> simp

/-- Without tokens the budget does not matter. -/
theorem predicate_of_no_token {raw : Json} (h : ∀ depth, ¬ references.TokenBelow depth raw) (budget : Nat)
    {rule : Predicate} : predicate references budget raw = .ok rule ↔
      references.Unfolds raw rule ∧ ∀ depth, references.TokenBelow depth raw → depth < budget := by
  rw [and_iff_left fun depth hdepth => absurd hdepth (h depth)]
  cases raw with
  | str name =>
    cases htoken : ReferenceToken.parse? name with
    | none => rw [predicate, htoken, References.unfolds_of_not_token htoken, ← primitive_eq_ok]
    | some token => exact absurd (.here htoken) (h 0)
  | arr values =>
    rw [predicate]
    constructor
    · intro hread; cases hread; exact .allowed values
    · intro hunfolds; cases hunfolds; rfl
  | _ =>
    rw [predicate]
    · constructor
      · intro hread; cases hread
      · intro hunfolds; cases hunfolds
    all_goals
      intro _ hraw
      cases hraw

/-- What the budget is for one predicate, it is for all fields of a mapping. -/
theorem namedRules_eq_ok_of_predicate {budget : Nat} (h : ∀ raw rule, predicate references budget raw = .ok rule ↔
      references.Unfolds raw rule ∧ ∀ depth, references.TokenBelow depth raw → depth < budget)
    {fields : Fields} {rules : List (String × Predicate)} :
    namedRules (predicate references budget) fields = .ok rules ↔ references.UnfoldsAll fields rules ∧
      ∀ entry ∈ fields, ∀ depth, references.TokenBelow depth entry.2 → depth < budget := by
  rw [namedRules_eq_ok, References.unfoldsAll_iff, and_comm, ← List.forall₂_and_left]
  simp only [h, and_comm, and_assoc]

/-- A token that opens a mapping takes one from the budget. -/
theorem predicate_token_eq_ok {budget : Nat} {text : String} {token : ReferenceToken}
    (htoken : ReferenceToken.parse? text = some token)
    (ih : ∀ raw rule, predicate references budget raw = .ok rule ↔
      references.Unfolds raw rule ∧ ∀ depth, references.TokenBelow depth raw → depth < budget)
    {rule : Predicate} : predicate references (budget + 1) (.str text) = .ok rule ↔
      references.Unfolds (.str text) rule ∧ ∀ depth, references.TokenBelow depth (.str text) → depth < budget + 1 := by
  rw [References.unfolds_token htoken, References.tokensBelow_iff htoken, predicate, htoken]
  dsimp only
  cases hvalue : references.resolve token with
  | error defect => simp
  | ok value =>
    cases value with
    | arr values => simp [eq_comm]
    | str name => simp [primitive_eq_ok]
    | obj fields =>
      simp only [Except.map_eq_ok, namedRules_eq_ok_of_predicate ih]
      constructor
      · intro h
        obtain ⟨rules, ⟨hall, hbelow⟩, rfl⟩ := h
        refine ⟨.inr (.inr ⟨fields, rules, rfl, hall, rfl⟩), fun other hother => ?_⟩
        cases hother
        exact hbelow
      · intro h
        obtain ⟨⟨_, hlist, -⟩ | ⟨_, hname, -⟩ | ⟨_, rules, hmapping, hall, rfl⟩, hbelow⟩ := h
        · cases hlist
        · cases hname
        · cases hmapping
          exact ⟨rules, ⟨hall, hbelow fields rfl⟩, rfl⟩
    | _ => simp

/-- With a budget, exactly those unfoldings are read in which every token lies below fewer mappings. -/
theorem predicate_eq_ok {budget : Nat} {raw : Json} {rule : Predicate} :
    predicate references budget raw = .ok rule ↔
      references.Unfolds raw rule ∧ ∀ depth, references.TokenBelow depth raw → depth < budget := by
  induction budget generalizing raw rule with
  | zero =>
    cases References.tokenBelow_cases raw with
    | inl hplain => exact predicate_of_no_token hplain _
    | inr htoken =>
      obtain ⟨text, token, rfl, htoken⟩ := htoken
      rw [predicate, htoken]
      constructor
      · intro hread; cases hread
      · intro h; exact absurd (h.2 0 (.here htoken)) (Nat.not_lt_zero 0)
  | succ budget ih =>
    cases References.tokenBelow_cases raw with
    | inl hplain => exact predicate_of_no_token hplain _
    | inr htoken =>
      obtain ⟨text, token, rfl, htoken⟩ := htoken
      exact predicate_token_eq_ok htoken fun raw rule => ih

/-- **References unfold.** A predicate is read as its finite unfolding, unless a token occurs in it below
32 or more mappings opened one within another; where they can be opened without an end it is refused. -/
theorem unfolded_or_refused (references : References) (raw : Json) :
    (∀ rule, predicate references unfoldingLimit raw = .ok rule ↔
      references.Unfolds raw rule ∧ ∀ depth, references.TokenBelow depth raw → depth < 32) ∧
    (references.Endless raw → ∃ defect, predicate references unfoldingLimit raw = .error defect) := by
  refine ⟨fun rule => predicate_eq_ok, fun hendless => ?_⟩
  cases hread : predicate references unfoldingLimit raw with
  | error defect => exact ⟨defect, rfl⟩
  | ok rule =>
    have hbelow := (predicate_eq_ok.mp hread).2 unfoldingLimit (hendless.tokenBelow unfoldingLimit)
    exact absurd hbelow (Nat.lt_irrefl unfoldingLimit)

/-- A definition that refers to itself. -/
def selfReference : References := [("loop", .obj [("inner", .str "@loop")])]

theorem self_reference_refused : selfReference.Endless (.str "@loop") ∧
    ∃ defect, predicate selfReference unfoldingLimit (.str "@loop") = .error defect := by
  have hopens : selfReference.Opens (.str "@loop") (.str "@loop") :=
    @References.Opens.field selfReference "@loop" "inner" (.values "loop") _ _ rfl rfl List.mem_cons_self
  have hendless : selfReference.Endless (.str "@loop") := ⟨fun _ => .str "@loop", rfl, fun _ => hopens⟩
  exact ⟨hendless, (unfolded_or_refused selfReference (.str "@loop")).2 hendless⟩

end Schema

end TestMatrix
