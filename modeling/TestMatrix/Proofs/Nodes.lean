import TestMatrix.TreePath

/-!
# Nodes of a document

The walks of the validator and of the pattern search are recursions over a value, the items of a
list and the fields of a mapping. Here they meet on common ground: the children of a node, an
induction along them, and the nodes that a walk reaches when it may leave out children.
-/

namespace TestMatrix

namespace TreePath

theorem child_ne_root (path : TreePath) (segment : Segment) : path.child segment ≠ .root :=
  List.append_ne_nil_of_right_ne_nil _ (List.cons_ne_nil _ _)

theorem child_inj {path other : TreePath} {segment segment' : Segment} :
    path.child segment = other.child segment' ↔ path = other ∧ segment = segment' := by
  constructor
  · intro h
    obtain ⟨hpath, hsegment⟩ := List.append_inj' h rfl
    exact ⟨hpath, List.singleton_inj.mp hsegment⟩
  · rintro ⟨rfl, rfl⟩; rfl

end TreePath

namespace Json

theorem sizeOf_lt_of_mem_children {value child : Json} {segment : Segment}
    (h : (segment, child) ∈ value.children) : sizeOf child < sizeOf value := by
  cases value with
  | arr items =>
    simp only [children, List.mem_map, Prod.mk.injEq] at h
    obtain ⟨⟨item, position⟩, hmem, -, rfl⟩ := h
    have : sizeOf item < sizeOf items := List.sizeOf_lt_of_mem (List.fst_mem_of_mem_zipIdx hmem)
    simp only [arr.sizeOf_spec]; omega
  | obj fields =>
    simp only [children, List.mem_map, Prod.mk.injEq] at h
    obtain ⟨⟨name, item⟩, hmem, -, rfl⟩ := h
    have := List.sizeOf_lt_of_mem hmem
    simp only [Prod.mk.sizeOf_spec, obj.sizeOf_spec] at this ⊢; omega
  | _ => cases h

theorem children_induction {motive : Json → Prop}
    (step : ∀ value : Json, (∀ segment child, (segment, child) ∈ value.children → motive child) →
      motive value) (value : Json) : motive value :=
  step value fun _ child h =>
    have := sizeOf_lt_of_mem_children h
    children_induction step child
termination_by sizeOf value

theorem children_eq_nil {value : Json} (h : value.isContainer = false) : value.children = [] := by
  cases value with
  | arr _ | obj _ => cases h
  | _ => rfl

theorem item_mem_children {items : List Json} {item : Json} (h : item ∈ items) :
    ∃ segment, (segment, item) ∈ (Json.arr items).children := by
  obtain ⟨position, hposition⟩ := List.mem_iff_getElem?.mp h
  exact ⟨.index position, List.mem_map.mpr ⟨(item, position), List.mem_zipIdx_iff_getElem?.mpr hposition, rfl⟩⟩

theorem field_mem_children {fields : Fields} {key : String} {value : Json} (h : (key, value) ∈ fields) :
    (Segment.ofKey key, value) ∈ (Json.obj fields).children := List.mem_map.mpr ⟨(key, value), h, rfl⟩

section
variable (enter : TreePath → Segment → Json → Bool)

mutual
/-- The nodes from a node down in document order, a node before its children. A child that is not
entered is left out with all below it. -/
def walk (path : TreePath) : Json → List (TreePath × Json)
  | .arr items => (path, .arr items) :: walkItems path 0 items
  | .obj fields => (path, .obj fields) :: walkFields path fields
  | value => [(path, value)]
def walkItems (path : TreePath) (position : Nat) : List Json → List (TreePath × Json)
  | [] => []
  | item :: rest =>
    (if enter path (.index position) item then walk (path.child (.index position)) item else []) ++
      walkItems path (position + 1) rest
def walkFields (path : TreePath) : List (String × Json) → List (TreePath × Json)
  | [] => []
  | (name, child) :: rest =>
    (if enter path (.ofKey name) child then walk (path.child (.ofKey name)) child else []) ++
      walkFields path rest
end

def walkChild (path : TreePath) (entry : Segment × Json) : List (TreePath × Json) :=
  if enter path entry.1 entry.2 then walk enter (path.child entry.1) entry.2 else []

theorem walkItems_eq (path : TreePath) : ∀ (items : List Json) (position : Nat),
    walkItems enter path position items =
      ((items.zipIdx position).map fun (item, k) => (Segment.index k, item)).flatMap
        (walkChild enter path)
  | [], _ => by simp [walkItems]
  | item :: rest, position => by
    rw [walkItems, walkItems_eq path rest, List.zipIdx_cons, List.map_cons, List.flatMap_cons]
    rfl

theorem walkFields_eq (path : TreePath) : ∀ fields : List (String × Json),
    walkFields enter path fields =
      (fields.map fun (name, child) => (Segment.ofKey name, child)).flatMap (walkChild enter path)
  | [] => by simp [walkFields]
  | (name, child) :: rest => by
    rw [walkFields, walkFields_eq path rest, List.map_cons, List.flatMap_cons]
    rfl

theorem walk_eq (path : TreePath) (value : Json) :
    walk enter path value = (path, value) :: value.children.flatMap (walkChild enter path) := by
  cases value with
  | arr items => rw [walk, walkItems_eq]; rfl
  | obj fields => rw [walk, walkFields_eq]; rfl
  | _ => rfl

end

/-- The nodes that can be reached from a top node through children that are entered. -/
inductive Reached (enter : TreePath → Segment → Json → Prop) (start : TreePath) (top : Json) :
    TreePath → Json → Prop
  | top : Reached enter start top start top
  | child {path : TreePath} {value : Json} {segment : Segment} {child : Json} :
    Reached enter start top path value → (segment, child) ∈ value.children →
    enter path segment child → Reached enter start top (path.child segment) child

namespace Reached

variable {enter : TreePath → Segment → Json → Prop} {start path : TreePath} {top value : Json}

theorem descend {segment : Segment} {child : Json} (hmem : (segment, child) ∈ top.children)
    (henter : enter start segment child)
    (h : Reached enter (start.child segment) child path value) : Reached enter start top path value := by
  induction h with
  | top => exact .child .top hmem henter
  | child _ hmem' henter' ih => exact .child ih hmem' henter'

theorem mono {wider : TreePath → Segment → Json → Prop}
    (himp : ∀ path segment child, enter path segment child → wider path segment child)
    (h : Reached enter start top path value) : Reached wider start top path value := by
  induction h with
  | top => exact .top
  | child _ hmem henter ih => exact .child ih hmem (himp _ _ _ henter)

theorem start_prefix (h : Reached enter start top path value) : start <+: path := by
  induction h with
  | top => exact List.prefix_rfl
  | child _ _ _ ih => exact ih.trans (List.prefix_append _ _)

theorem eq_or_child (h : Reached enter start top path value) :
    (path = start ∧ value = top) ∨ ∃ above parent segment, path = above.child segment ∧
      Reached enter start top above parent ∧ (segment, value) ∈ parent.children := by
  cases h with
  | top => exact Or.inl ⟨rfl, rfl⟩
  | child h hmem _ => exact Or.inr ⟨_, _, _, rfl, h, hmem⟩

/-- No node below the top stands at its path. -/
theorem child_ne_start (h : Reached enter start top path value) (segment : Segment) :
    path.child segment ≠ start := by
  intro he
  have hlength := h.start_prefix.length_le
  rw [← he, TreePath.child, List.length_append, List.length_singleton] at hlength
  omega

end Reached

theorem mem_walk_child {enter : TreePath → Segment → Json → Bool} {path : TreePath} {value : Json}
    {segment : Segment} {child : Json} (hmem : (segment, child) ∈ value.children)
    (henter : enter path segment child = true) (top : Json) : ∀ {start : TreePath},
      (path, value) ∈ walk enter start top → (path.child segment, child) ∈ walk enter start top := by
  induction top using children_induction with
  | step top ih =>
    intro start h
    rw [walk_eq, List.mem_cons, List.mem_flatMap] at h
    rw [walk_eq]
    refine List.mem_cons_of_mem _ (List.mem_flatMap.mpr ?_)
    rcases h with h | ⟨⟨segment', child'⟩, hmem', h⟩
    · cases h
      refine ⟨(segment, child), hmem, ?_⟩
      rw [walkChild, if_pos henter, walk_eq]
      exact List.mem_cons_self ..
    · refine ⟨(segment', child'), hmem', ?_⟩
      unfold walkChild at h ⊢
      split
      · next henter' =>
        rw [if_pos henter'] at h
        exact ih segment' child' hmem' h
      · next henter' => rw [if_neg henter'] at h; cases h

/-- A walk lists exactly the nodes that are reached. -/
theorem mem_walk {enter : TreePath → Segment → Json → Bool} {path : TreePath} {value : Json} :
    ∀ {start : TreePath} {top : Json}, (path, value) ∈ walk enter start top ↔
      Reached (fun path segment child => enter path segment child = true) start top path value := by
  intro start top
  constructor
  · induction top using children_induction generalizing start with
    | step top ih =>
      intro h
      rw [walk_eq, List.mem_cons, List.mem_flatMap] at h
      rcases h with h | ⟨⟨segment, child⟩, hmem, h⟩
      · cases h; exact .top
      · unfold walkChild at h
        split at h
        · next henter => exact Reached.descend hmem henter (ih segment child hmem h)
        · cases h
  · intro h
    induction h with
    | top => rw [walk_eq]; exact List.mem_cons_self ..
    | @child path value segment child _ hmem henter ih => exact mem_walk_child hmem henter top ih

end Json

end TestMatrix
