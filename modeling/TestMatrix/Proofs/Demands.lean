import TestMatrix.Proofs.Nodes
import TestMatrix.Proofs.Satisfaction
import TestMatrix.Spec.Validate

/-!
# The walk of the validator as a list of demands

The validator is a recursion with early exit that carries a diagnosis. What it asks of the nodes
can be listed beforehand, in document order, and the walk meets these demands one after the other
up to the first that fails. All statements about validation are read off that list.
-/

namespace TestMatrix

namespace Validate

/-- The assertions that the schema lists for a node; none where it has no entry. -/
def rulesAt (schema : Schema) (path : TreePath) : List Rule :=
  (schema.rules.get? path.generalize).getD []

/-- What is asked of a node: that it satisfies a rule, or without a rule that the schema has an
entry for it. -/
structure Demand where
  path : TreePath
  value : Json
  rule : Option Rule

def demandsOn (schema : Schema) (node : TreePath × Json) : List Demand :=
  ⟨node.1, node.2, none⟩ :: (rulesAt schema node.1).map fun rule => ⟨node.1, node.2, some rule⟩

def enters (schema : Schema) (path : TreePath) (segment : Segment) (child : Json) : Bool :=
  !isPassedOver schema (rulesAt schema path) path segment child

/-- All that is asked of a node and of what the walk visits below it, in document order. -/
def demands (schema : Schema) (path : TreePath) (value : Json) : List Demand :=
  (Json.walk (enters schema) path value).flatMap (demandsOn schema)

section
variable (schema : Schema) (isFile : String → Bool)

def Demand.violation? (demand : Demand) : Option Violation :=
  match demand.rule with
  | none =>
    if demand.path.isEmpty || schema.rules.contains demand.path.generalize then none
    else some (.noRule demand.path)
  | some rule =>
    match Check.assertion isFile demand.value rule.assertion with
    | .ok () => none
    | .error violation => some violation

def Demand.note (demand : Demand) (diagnosis : Diagnosis) : Diagnosis :=
  match demand.rule with
  | none => { diagnosis with path := some demand.path, value := demand.value }
  | some rule => { diagnosis with expectation := some rule.expectation }

/-- Meets demands in turn, up to the first that fails. -/
def meet (diagnosis : Diagnosis) : List Demand → Except Rejection Diagnosis
  | [] => .ok diagnosis
  | demand :: rest =>
    match demand.violation? schema isFile with
    | none => meet (demand.note diagnosis) rest
    | some violation => .error ⟨⟨demand.path, violation⟩, demand.note diagnosis⟩

theorem meet_append (first second : List Demand) (diagnosis : Diagnosis) :
    meet schema isFile diagnosis (first ++ second) =
      (meet schema isFile diagnosis first >>= fun diagnosis => meet schema isFile diagnosis second) := by
  induction first generalizing diagnosis with
  | nil => rfl
  | cons demand rest ih =>
    rw [List.cons_append, meet, meet]
    split
    · exact ih _
    · rfl

theorem meet_flatMap {α : Type} (f : α → List Demand) (list : List α) (diagnosis : Diagnosis) :
    meet schema isFile diagnosis (list.flatMap f) =
      list.foldlM (fun diagnosis a => meet schema isFile diagnosis (f a)) diagnosis := by
  induction list generalizing diagnosis with
  | nil => rfl
  | cons a rest ih =>
    rw [List.flatMap_cons, meet_append, List.foldlM_cons]
    exact congrArg _ (funext fun _ => ih _)

/-! ## The walk meets the demands -/

def visitChild (rules : List Rule) (path : TreePath) (diagnosis : Diagnosis)
    (entry : Segment × Json) : Except Rejection Diagnosis :=
  if isPassedOver schema rules path entry.1 entry.2 then pure diagnosis
  else visit schema isFile (path.child entry.1) diagnosis entry.2

theorem visitItems_eq (rules : List Rule) (path : TreePath) :
    ∀ (items : List Json) (position : Nat) (diagnosis : Diagnosis),
      visitItems schema isFile rules path position diagnosis items =
        ((items.zipIdx position).map fun (item, k) => (Segment.index k, item)).foldlM
          (visitChild schema isFile rules path) diagnosis
  | [], _, _ => by rw [visitItems]; rfl
  | item :: rest, position, diagnosis => by
    rw [visitItems, List.zipIdx_cons, List.map_cons, List.foldlM_cons]
    simp only [visitItems_eq rules path rest, visitChild]
    split <;> rfl

theorem visitFields_eq (rules : List Rule) (path : TreePath) :
    ∀ (fields : List (String × Json)) (diagnosis : Diagnosis),
      visitFields schema isFile rules path diagnosis fields =
        (fields.map fun (name, child) => (Segment.ofKey name, child)).foldlM
          (visitChild schema isFile rules path) diagnosis
  | [], _ => by rw [visitFields]; rfl
  | (name, child) :: rest, diagnosis => by
    rw [visitFields, List.map_cons, List.foldlM_cons]
    simp only [visitFields_eq rules path rest, visitChild]
    split <;> rfl

theorem visit_eq (path : TreePath) (diagnosis : Diagnosis) (value : Json) :
    visit schema isFile path diagnosis value =
      ((rulesFor schema path).mapError
          (fun fault => (⟨fault, { diagnosis with path := some path, value }⟩ : Rejection)) >>= fun rules =>
        checkRules isFile path value { diagnosis with path := some path, value } rules >>= fun diagnosis =>
          value.children.foldlM (visitChild schema isFile rules path) diagnosis) := by
  cases value with
  | arr items => rw [visit]; simp only [visitItems_eq]; rfl
  | obj fields => rw [visit]; simp only [visitFields_eq]; rfl
  | _ => rw [visit]; rfl

theorem checkRules_eq (path : TreePath) (value : Json) :
    ∀ (rules : List Rule) (diagnosis : Diagnosis),
      checkRules isFile path value diagnosis rules =
        meet schema isFile diagnosis (rules.map fun rule => ⟨path, value, some rule⟩)
  | [], _ => rfl
  | rule :: rest, diagnosis => by
    simp only [checkRules, List.map_cons, meet, Demand.violation?]
    cases Check.assertion isFile value rule.assertion with
    | ok u => exact checkRules_eq path value rest _
    | error violation => rfl

/-- Visiting a node is meeting the demands on it and on what is visited below it. -/
theorem visit_eq_meet (value : Json) : ∀ (path : TreePath) (diagnosis : Diagnosis),
    visit schema isFile path diagnosis value = meet schema isFile diagnosis (demands schema path value) := by
  induction value using Json.children_induction with
  | step value ih =>
    intro path diagnosis
    rw [visit_eq, demands, Json.walk_eq, List.flatMap_cons, demandsOn, List.cons_append, meet,
      Demand.violation?]
    -- below the node the recursion has become that of the list
    have hbelow : ∀ diagnosis, value.children.foldlM (visitChild schema isFile (rulesAt schema path) path)
        diagnosis = meet schema isFile diagnosis
          ((value.children.flatMap (Json.walkChild (enters schema) path)).flatMap (demandsOn schema)) := by
      intro diagnosis
      rw [List.flatMap_assoc, meet_flatMap]
      refine Except.foldlM_congr_mem (fun entry hmem diagnosis => ?_) diagnosis
      rw [visitChild, Json.walkChild, enters]
      cases isPassedOver schema (rulesAt schema path) path entry.1 entry.2 with
      | true => rfl
      | false => exact ih entry.1 entry.2 hmem _ _
    have hrules : rulesFor schema path =
        if path.isEmpty || schema.rules.contains path.generalize then .ok (rulesAt schema path)
        else .error ⟨path, .noRule path⟩ := by
      unfold rulesFor rulesAt Table.contains
      cases schema.rules.get? path.generalize with
      | some rules => simp
      | none => cases path <;> rfl
    rw [hrules]
    by_cases h : (path.isEmpty || schema.rules.contains path.generalize) = true
    · simp only [if_pos h]
      rw [meet_append, ← checkRules_eq]
      exact congrArg _ (funext fun diagnosis => hbelow diagnosis)
    · simp only [if_neg h]
      rfl

/-! ## Outcomes of meeting demands -/

variable {schema isFile}

theorem meet_ok {list : List Demand} {diagnosis : Diagnosis} :
    (∃ after, meet schema isFile diagnosis list = .ok after) ↔
      ∀ demand ∈ list, demand.violation? schema isFile = none := by
  induction list generalizing diagnosis with
  | nil => simp [meet]
  | cons demand rest ih =>
    rw [meet, List.forall_mem_cons]
    cases h : demand.violation? schema isFile with
    | none => simp [ih]
    | some violation => simp

/-- What is noted while demands are met in turn. -/
def noted (diagnosis : Diagnosis) (list : List Demand) : Diagnosis :=
  list.foldl (fun diagnosis demand => demand.note diagnosis) diagnosis

theorem noted_append (diagnosis : Diagnosis) (first second : List Demand) :
    noted diagnosis (first ++ second) = noted (noted diagnosis first) second := List.foldl_append ..

/-- Meeting stops at the first demand that fails, with what has been noted up to it. -/
theorem meet_eq_error {list : List Demand} {diagnosis : Diagnosis} {rejection : Rejection} :
    meet schema isFile diagnosis list = .error rejection ↔ ∃ earlier demand later violation,
      list = earlier ++ demand :: later ∧ (∀ met ∈ earlier, met.violation? schema isFile = none) ∧
      demand.violation? schema isFile = some violation ∧
      rejection = ⟨⟨demand.path, violation⟩, demand.note (noted diagnosis earlier)⟩ := by
  induction list generalizing diagnosis with
  | nil => simp [meet]
  | cons demand rest ih =>
    rw [meet]
    cases hdemand : demand.violation? schema isFile with
    | none =>
      dsimp only
      rw [ih]
      constructor
      · rintro ⟨earlier, failed, later, violation, rfl, hearlier, hfailed, rfl⟩
        exact ⟨demand :: earlier, failed, later, violation, rfl, List.forall_mem_cons.mpr ⟨hdemand, hearlier⟩,
          hfailed, rfl⟩
      · rintro ⟨earlier, failed, later, violation, hlist, hearlier, hfailed, rfl⟩
        cases earlier with
        | nil =>
          cases hlist
          rw [hdemand] at hfailed
          cases hfailed
        | cons _ earlier =>
          cases hlist
          exact ⟨earlier, failed, later, violation, rfl, (List.forall_mem_cons.mp hearlier).2, hfailed, rfl⟩
    | some violation =>
      dsimp only
      constructor
      · intro h
        cases h
        exact ⟨[], demand, rest, violation, rfl, by simp, hdemand, rfl⟩
      · rintro ⟨earlier, failed, later, violation', hlist, hearlier, hfailed, rfl⟩
        cases earlier with
        | nil =>
          cases hlist
          rw [hdemand] at hfailed
          cases hfailed
          rfl
        | cons _ earlier =>
          cases hlist
          rw [(List.forall_mem_cons.mp hearlier).1] at hdemand
          cases hdemand

end

end Validate

end TestMatrix
