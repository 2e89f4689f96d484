import TestMatrix.Matrix.Pattern
import TestMatrix.Proofs.Nodes
import TestMatrix.Proofs.Outcomes

/-!
# What the search for patterns finds

The search is a recursion that collects patterns and may fail. It is the same step at every node,
over the children that `Nodes` speaks of, and each pattern it finds is a mapping of the document at
a path where the schema has a leaf.
-/

namespace TestMatrix

namespace Pattern

section
variable {schema : Schema}

def ofChild (schema : Schema) (path : TreePath) (ancestors : List Fields) (entry : Segment × Json) :
    Except SpecFault (List Pattern) :=
  ofNode schema (path.child entry.1) ancestors entry.2

theorem ofItems_eq (path : TreePath) (ancestors : List Fields) : ∀ (items : List Json) (position : Nat),
    ofItems schema path ancestors position items =
      (((items.zipIdx position).map fun (item, k) => (Segment.index k, item)).mapM
        (ofChild schema path ancestors)).map List.flatten
  | [], _ => by rw [ofItems]; rfl
  | item :: rest, position => by
    rw [ofItems, ofItems_eq path ancestors rest, List.zipIdx_cons, List.map_cons, Except.mapM_cons_flatten]
    rfl

theorem ofFields_eq (path : TreePath) (ancestors : List Fields) : ∀ fields : List (String × Json),
    ofFields schema path ancestors fields =
      ((fields.map fun (name, child) => (Segment.ofKey name, child)).mapM
        (ofChild schema path ancestors)).map List.flatten
  | [] => by rw [ofFields]; rfl
  | (name, child) :: rest => by
    rw [ofFields, ofFields_eq path ancestors rest, List.map_cons, Except.mapM_cons_flatten]
    rfl

theorem ofNode_eq_of_not_leaf {path : TreePath} (hleaf : schema.leaves.contains path.generalize = false)
    (ancestors : List Fields) (value : Json) :
    ofNode schema path ancestors value =
      (value.children.mapM (ofChild schema path (ancestorsBelow path ancestors value))).map
        List.flatten := by
  cases value with
  | arr items => simp only [ofNode, hleaf]; exact ofItems_eq path _ items 0
  | obj fields => simp only [ofNode, hleaf]; exact ofFields_eq path _ fields
  | _ => simp only [ofNode, hleaf]; rfl

theorem ofNode_eq_ok_of_leaf {path : TreePath} (hleaf : schema.leaves.contains path.generalize = true)
    {ancestors : List Fields} {value : Json} {found : List Pattern} :
    ofNode schema path ancestors value = .ok found ↔ ∃ fields, value = .obj fields ∧
      found = [⟨path, path.generalize, ancestors, dimensionsOf schema path.generalize fields⟩] := by
  cases value with
  | obj fields =>
    rw [ofNode, if_pos hleaf]
    constructor
    · intro h; cases h; exact ⟨fields, rfl, rfl⟩
    · rintro ⟨_, h, rfl⟩; cases h; rfl
  | _ => simp [ofNode, hleaf]

/-- A pattern read off a mapping at a leaf. -/
structure IsAt (pattern : Pattern) (schema : Schema) (place : TreePath) (fields : Fields) : Prop where
  path : pattern.path = place
  leafPath : pattern.leafPath = place.generalize
  isLeaf : schema.leaves.contains place.generalize = true
  dimensions : pattern.dimensions = dimensionsOf schema place.generalize fields

/-- Every pattern that is found stands at a mapping of the document. -/
theorem isAt_of_mem_ofNode (value : Json) : ∀ {path : TreePath} {ancestors : List Fields} {found : List Pattern},
    ofNode schema path ancestors value = .ok found → ∀ pattern ∈ found, ∃ place fields,
      Json.Reached (fun _ _ _ => True) path value place (.obj fields) ∧ pattern.IsAt schema place fields := by
  induction value using Json.children_induction with
  | step value ih =>
    intro path ancestors found h pattern hmem
    cases hleaf : schema.leaves.contains path.generalize with
    | true =>
      obtain ⟨fields, rfl, rfl⟩ := (ofNode_eq_ok_of_leaf hleaf).mp h
      cases List.mem_singleton.mp hmem
      exact ⟨path, fields, .top, rfl, rfl, hleaf, rfl⟩
    | false =>
      rw [ofNode_eq_of_not_leaf hleaf, Except.map_eq_ok] at h
      obtain ⟨parts, hparts, rfl⟩ := h
      obtain ⟨part, hpart, hmem⟩ := List.mem_flatten.mp hmem
      obtain ⟨⟨segment, child⟩, hchild, hfound⟩ :=
        exists_of_forall₂_right ((Except.mapM_eq_ok _ _).mp hparts) hpart
      obtain ⟨place, fields, hreached, hat⟩ := ih segment child hchild hfound pattern hmem
      exact ⟨place, fields, hreached.descend hchild trivial, hat⟩

end

end Pattern

end TestMatrix
