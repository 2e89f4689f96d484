import Mathlib.Data.List.Nodup
import TestMatrix.Proofs.DistinctKeys
import TestMatrix.Proofs.Search

/-!
# Topmost leaves

The search for patterns carries the named mappings down and stops at a leaf. Here the document is first
written out as the list of all its nodes, each with the nodes above it. Main statement: the search finds
the nodes at leaves with no leaf above them, in the order of that list, and what a pattern says of its
surroundings is read off the nodes above it.
-/

namespace TestMatrix

namespace Json

/-- A node of a document with the nodes above it, the document root first. -/
structure Node where
  above : List (TreePath × Json)
  path : TreePath
  value : Json

namespace Node

def root (document : Json) : Node := ⟨[], .root, document⟩

def child (node : Node) (entry : Segment × Json) : Node :=
  ⟨node.above ++ [(node.path, node.value)], node.path.child entry.1, entry.2⟩

/-- The nodes from a node down in document order, a node before its children. -/
def below (node : Node) : List Node :=
  node :: node.value.children.attach.flatMap fun entry => below (node.child entry.1)
termination_by SizeOf.sizeOf node.value
decreasing_by exact sizeOf_lt_of_mem_children entry.2

theorem below_eq (node : Node) :
    node.below = node :: node.value.children.flatMap fun entry => (node.child entry).below := by
  rw [below, List.flatMap_subtype (g := fun entry => (node.child entry).below) fun _ _ => rfl, List.unattach_attach]

/-- The nodes that can be reached from a node through children. -/
inductive Reaches (top : Node) : Node → Prop
  | top : Reaches top top
  | child {node : Node} {entry : Segment × Json} : Reaches top node → entry ∈ node.value.children →
    Reaches top (node.child entry)

theorem Reaches.descend {top node : Node} {entry : Segment × Json} (hmem : entry ∈ top.value.children)
    (h : Reaches (top.child entry) node) : Reaches top node := by
  induction h with
  | top => exact .child .top hmem
  | child _ hmem' ih => exact .child ih hmem'

theorem below_induction {motive : Node → Prop}
    (step : ∀ node : Node, (∀ entry ∈ node.value.children, motive (node.child entry)) → motive node) (node : Node) :
    motive node := by
  obtain ⟨above, path, value⟩ := node
  induction value using children_induction generalizing above path with
  | step value ih => exact step ⟨above, path, value⟩ fun entry hmem => ih entry.1 entry.2 hmem _ _

theorem mem_below_child {node : Node} {entry : Segment × Json} (hmem : entry ∈ node.value.children) (top : Node) :
    node ∈ top.below → node.child entry ∈ top.below := by
  induction top using below_induction with
  | step top ih =>
    rw [below_eq, List.mem_cons, List.mem_cons, List.mem_flatMap, List.mem_flatMap]
    intro h
    right
    rcases h with rfl | ⟨entry', hmem', h⟩
    · exact ⟨entry, hmem, by rw [below_eq]; exact List.mem_cons_self ..⟩
    · exact ⟨entry', hmem', ih entry' hmem' h⟩

theorem mem_below {top node : Node} : node ∈ top.below ↔ Reaches top node := by
  constructor
  · induction top using below_induction with
    | step top ih =>
      rw [below_eq, List.mem_cons, List.mem_flatMap]
      intro h
      rcases h with rfl | ⟨entry, hmem, h⟩
      · exact .top
      · exact Reaches.descend hmem (ih entry hmem h)
  · intro h
    induction h with
    | top => rw [below_eq]; exact List.mem_cons_self ..
    | child _ hmem ih => exact mem_below_child hmem top ih

theorem Reaches.above_isPrefix {top node : Node} (h : Reaches top node) : top.above <+: node.above := by
  induction h with
  | top => exact List.prefix_rfl
  | child _ _ ih => exact ih.trans (List.prefix_append _ _)

theorem Reaches.path_isPrefix {top node : Node} (h : Reaches top node) : top.path <+: node.path := by
  induction h with
  | top => exact List.prefix_rfl
  | child _ _ ih => exact ih.trans (List.prefix_append _ _)

/-! ## Document order -/

/-- A node stands above the other, or both stand below children of one node of which the first child
comes first. -/
def Precedes (first second : Node) : Prop :=
  (first.path, first.value) ∈ second.above ∨
    ∃ (node : Node) (before between after : List (Segment × Json)) (entry entry' : Segment × Json),
      node.value.children = before ++ entry :: (between ++ entry' :: after) ∧
      Reaches (node.child entry) first ∧ Reaches (node.child entry') second

theorem above_of_mem_below {node other : Node} {entry : Segment × Json} (h : other ∈ (node.child entry).below) :
    (node.path, node.value) ∈ other.above :=
  (mem_below.mp h).above_isPrefix.mem (List.mem_append_right _ (List.mem_singleton_self _))

theorem pairwise_split {α : Type} : ∀ list : List α,
    list.Pairwise fun first second => ∃ before between after, list = before ++ first :: (between ++ second :: after)
  | [] => .nil
  | a :: rest => by
    refine .cons ?_ ((pairwise_split rest).imp ?_)
    · intro b hmem
      obtain ⟨between, after, rfl⟩ := List.append_of_mem hmem
      exact ⟨[], between, after, rfl⟩
    · intro first second h
      obtain ⟨before, between, after, rfl⟩ := h
      exact ⟨a :: before, between, after, rfl⟩

theorem pairwise_precedes (top : Node) : top.below.Pairwise Precedes := by
  induction top using below_induction with
  | step top ih =>
    rw [below_eq, List.pairwise_cons, List.pairwise_flatMap]
    refine ⟨fun other hother => ?_, ih, (pairwise_split _).imp ?_⟩
    · obtain ⟨entry, -, h⟩ := List.mem_flatMap.mp hother
      exact Or.inl (above_of_mem_below h)
    · intro entry entry' hsplit first hfirst second hsecond
      obtain ⟨before, between, after, hsplit⟩ := hsplit
      exact Or.inr ⟨top, before, between, after, entry, entry', hsplit, mem_below.mp hfirst, mem_below.mp hsecond⟩

theorem nodup_segments {value : Json} (h : value.hasDistinctKeys = true) : (value.children.map Prod.fst).Nodup := by
  cases value with
  | arr items =>
    have hpositions : ((Json.arr items).children.map Prod.fst) = (List.range' 0 items.length).map Segment.index := by
      rw [← List.zipIdx_map_snd, List.map_map, children, List.map_map]
      rfl
    rw [hpositions]
    exact List.Nodup.map (fun _ _ => Segment.index.inj) List.nodup_range'
  | obj fields =>
    have hkeys := List.Nodup.map (fun _ _ => Segment.ofKey_inj) (hasDistinctKeys_obj.mp h).1
    rw [Fields.keys, List.map_map] at hkeys
    rw [children, List.map_map]
    exact hkeys
  | _ => exact List.nodup_nil

theorem path_ne_of_mem_below {node other : Node} {entry : Segment × Json} (h : other ∈ (node.child entry).below) :
    node.path ≠ other.path := by
  intro he
  have hlength := (mem_below.mp h).path_isPrefix.length_le
  rw [child, ← he, TreePath.child, List.length_append, List.length_singleton] at hlength
  omega

theorem path_ne_of_segment_ne {node first second : Node} {entry entry' : Segment × Json} (hne : entry.1 ≠ entry'.1)
    (hfirst : first ∈ (node.child entry).below) (hsecond : second ∈ (node.child entry').below) :
    first.path ≠ second.path := by
  intro he
  have hprefix := (mem_below.mp hfirst).path_isPrefix
  rw [he] at hprefix
  -- both children's paths begin this one, and they are equally long
  have hlength : (node.child entry).path.length = (node.child entry').path.length := by simp [child, TreePath.child]
  have hbegins := List.prefix_of_prefix_length_le hprefix (mem_below.mp hsecond).path_isPrefix (Nat.le_of_eq hlength)
  have hsame := hbegins.eq_of_length hlength
  exact hne (List.singleton_inj.mp (List.append_cancel_left hsame))

/-- Where keys are distinct, a path belongs to one node. -/
theorem nodup_paths (top : Node) (hdistinct : top.value.hasDistinctKeys = true) : (top.below.map path).Nodup := by
  induction top using below_induction with
  | step top ih =>
    rw [List.Nodup, List.pairwise_map, below_eq, List.pairwise_cons, List.pairwise_flatMap]
    refine ⟨fun other hother => ?_, fun entry hmem => ?_, ?_⟩
    · obtain ⟨entry, -, h⟩ := List.mem_flatMap.mp hother
      exact path_ne_of_mem_below h
    · exact List.pairwise_map.mp (ih entry hmem (hasDistinctKeys_of_child hdistinct hmem))
    · refine (List.pairwise_map.mp (nodup_segments hdistinct)).imp ?_
      intro entry entry' hne first hfirst second hsecond
      exact path_ne_of_segment_ne hne hfirst hsecond

end Node

end Json

namespace Pattern

/-! ## The search -/

section
variable (schema : Schema)

/-- The schema has a leaf at the node and at none above it. -/
def isTopmost (node : Json.Node) : Bool :=
  schema.leaves.contains node.path.generalize &&
    node.above.all fun other => !schema.leaves.contains other.1.generalize

def topmost (spec : Json) : List Json.Node := (Json.Node.root spec).below.filter (isTopmost schema)

/-- The fields of a node above a pattern, if it is a mapping with a name. The document root does not count. -/
def named? (node : TreePath × Json) : Option Fields :=
  match node.2 with
  | .obj fields => if node.1 ≠ .root ∧ (fields.lookup "name").isSome then some fields else none
  | _ => none

def atNode (node : Json.Node) : Except SpecFault Pattern :=
  match node.value with
  | .obj fields => .ok ⟨node.path, node.path.generalize, node.above.filterMap named?,
      dimensionsOf schema node.path.generalize fields⟩
  | _ => .error ⟨node.path, .patternNotDict node.path⟩

/-- What a pattern says of its node. -/
structure Describes (node : Json.Node) (pattern : Pattern) : Prop where
  path : pattern.path = node.path
  leafPath : pattern.leafPath = node.path.generalize
  ancestors : pattern.ancestors = node.above.filterMap named?
  dimensions : ∃ fields, node.value = .obj fields ∧
    pattern.dimensions = dimensionsOf schema node.path.generalize fields

variable {schema}

theorem atNode_ok {node : Json.Node} {pattern : Pattern} : atNode schema node = .ok pattern ↔
    Describes schema node pattern := by
  obtain ⟨above, path, value⟩ := node
  constructor
  · intro h
    cases value with
    | obj fields =>
      cases h
      exact ⟨rfl, rfl, rfl, fields, rfl, rfl⟩
    | _ => cases h
  · intro h
    obtain ⟨place, leafPath, ancestors, dimensions⟩ := pattern
    obtain ⟨hpath, hleafPath, hancestors, fields, hvalue, hdimensions⟩ := h
    dsimp only at hpath hleafPath hancestors hvalue hdimensions
    rw [hpath, hleafPath, hancestors, hdimensions, hvalue]
    rfl

theorem atNode_isOk {node : Json.Node} : (∃ pattern, atNode schema node = .ok pattern) ↔
    ∃ fields, node.value = .obj fields := by
  obtain ⟨above, path, value⟩ := node
  cases value <;> simp [atNode]

theorem atNode_error {node : Json.Node} {fault : SpecFault} : atNode schema node = .error fault ↔
    (¬ ∃ fields, node.value = .obj fields) ∧ fault = ⟨node.path, .patternNotDict node.path⟩ := by
  obtain ⟨above, path, value⟩ := node
  cases value <;> simp [atNode, eq_comm]

theorem mem_topmost {spec : Json} {node : Json.Node} : node ∈ topmost schema spec ↔
    (Json.Node.root spec).Reaches node ∧ schema.leaves.contains node.path.generalize = true ∧
      ∀ other ∈ node.above, schema.leaves.contains other.1.generalize = false := by
  simp [topmost, isTopmost, Json.Node.mem_below]

theorem ancestorsBelow_eq (node : Json.Node) (entry : Segment × Json) :
    ancestorsBelow node.path (node.above.filterMap named?) node.value =
      (node.child entry).above.filterMap named? := by
  obtain ⟨above, path, value⟩ := node
  rw [Json.Node.child, List.filterMap_append]
  cases value with
  | obj fields =>
    cases path with
    | nil => simp [ancestorsBelow, named?, TreePath.root]
    | cons segment rest =>
      cases hname : (fields.lookup "name").isSome with
      | true => simp [ancestorsBelow, named?, TreePath.root, hname]
      | false => simp [ancestorsBelow, named?, TreePath.root, hname]
  | _ => exact (List.append_nil _).symm

theorem topmost_below_leaf {node : Json.Node} (hleaf : schema.leaves.contains node.path.generalize = true)
    {entry : Segment × Json} {other : Json.Node} (h : other ∈ (node.child entry).below) :
    isTopmost schema other = false := by
  have habove := Json.Node.above_of_mem_below h
  have hall : (other.above.all fun other => !schema.leaves.contains other.1.generalize) = false := by
    rw [List.all_eq_false]
    exact ⟨_, habove, by simp [hleaf]⟩
  rw [isTopmost, hall, Bool.and_false]

theorem ofNode_eq_mapM (node : Json.Node)
    (habove : ∀ other ∈ node.above, schema.leaves.contains other.1.generalize = false) :
    ofNode schema node.path (node.above.filterMap named?) node.value =
      (node.below.filter (isTopmost schema)).mapM (atNode schema) := by
  induction node using Json.Node.below_induction with
  | step node ih =>
    have hall : (node.above.all fun other => !schema.leaves.contains other.1.generalize) = true := by
      rw [List.all_eq_true]
      intro other hother
      rw [habove other hother]
      rfl
    rw [Json.Node.below_eq, List.filter_cons, isTopmost, hall, Bool.and_true, List.filter_flatMap]
    cases hleaf : schema.leaves.contains node.path.generalize with
    | true =>
      -- the node is a leaf itself, so it is all that there is
      have hnone :
          (node.value.children.flatMap fun entry => (node.child entry).below.filter (isTopmost schema)) = [] := by
        rw [List.flatMap_eq_nil_iff]
        intro entry _
        rw [List.filter_eq_nil_iff]
        intro other hother
        rw [topmost_below_leaf hleaf hother]
        exact Bool.false_ne_true
      rw [if_pos rfl, hnone]
      obtain ⟨above, path, value⟩ := node
      cases value with
      | obj fields => simp only [ofNode, hleaf, if_true]; rfl
      | _ => simp only [ofNode, hleaf, if_true]; rfl
    | false =>
      have hchildren : ∀ entry ∈ node.value.children,
          (ofChild schema node.path (ancestorsBelow node.path (node.above.filterMap named?) node.value) entry).map
            (List.map id) = ((node.child entry).below.filter (isTopmost schema)).mapM (atNode schema) := by
        intro entry hmem
        rw [ancestorsBelow_eq node entry, ← ih entry hmem]
        · rw [List.map_id_fun, Except.map_id]
          rfl
        · intro other hother
          rcases List.mem_append.mp hother with hother | hother
          · exact habove other hother
          · rw [List.mem_singleton.mp hother]
            exact hleaf
      rw [if_neg Bool.false_ne_true, ofNode_eq_of_not_leaf hleaf, ← Except.map_mapM_flatten hchildren,
        List.map_id_fun, Except.map_id]
      rfl

theorem ofSpec_eq_mapM (spec : Json) : ofSpec schema spec = (topmost schema spec).mapM (atNode schema) :=
  ofNode_eq_mapM (Json.Node.root spec) fun _ h => nomatch h

/-- **Discovery.** The search succeeds exactly when the topmost leaves are all mappings, and then it gives
one pattern for each, in document order; a pattern has the path of its node, and as ancestors the named
mappings above it without the document root, outermost first. It fails at the first topmost leaf that is
no mapping. The topmost leaves are the nodes of the document at which the schema has a leaf and has none
at the nodes above. -/
theorem finds_topmost_leaves (schema : Schema) (spec : Json) :
    ((∃ found, ofSpec schema spec = .ok found) ↔
      ∀ node ∈ topmost schema spec, ∃ fields, node.value = .obj fields) ∧
    (∀ found, ofSpec schema spec = .ok found ↔ List.Forall₂ (Describes schema) (topmost schema spec) found) ∧
    (∀ fault, ofSpec schema spec = .error fault ↔
      ∃ earlier node later, topmost schema spec = earlier ++ node :: later ∧
        (∀ other ∈ earlier, ∃ fields, other.value = .obj fields) ∧ (¬ ∃ fields, node.value = .obj fields) ∧
        fault = ⟨node.path, .patternNotDict node.path⟩) ∧
    (∀ node, node ∈ topmost schema spec ↔ (Json.Node.root spec).Reaches node ∧
      schema.leaves.contains node.path.generalize = true ∧
      ∀ other ∈ node.above, schema.leaves.contains other.1.generalize = false) ∧
    (topmost schema spec).Pairwise Json.Node.Precedes ∧
    (spec.hasDistinctKeys = true → ((topmost schema spec).map Json.Node.path).Nodup) := by
  rw [ofSpec_eq_mapM]
  refine ⟨?_, fun found => ?_, fun fault => ?_, fun node => mem_topmost, ?_, fun hdistinct => ?_⟩
  · simp only [Except.mapM_isOk, atNode_isOk]
  · simp only [Except.mapM_eq_ok, atNode_ok]
  · simp only [Except.mapM_eq_error, atNode_isOk, atNode_error]
  · exact (Json.Node.pairwise_precedes _).filter _
  · exact (Json.Node.nodup_paths (Json.Node.root spec) hdistinct).sublist (List.filter_sublist.map _)

-- the document root has a name and names nothing; of the two groups only the first has one
example : (ofSpec ⟨⟨[]⟩, [], ⟨[([.ofKey "groups", .wildcard, .ofKey "case"], ⟨none, none, .suppress, [], []⟩)]⟩, ⟨[]⟩⟩
    (.obj [("name", .str "all"), ("groups", .arr [.obj [("name", .str "g"), ("case", .obj [])],
      .obj [("case", .obj [])]])])).map (List.map Pattern.ancestors) =
    .ok [[[("name", .str "g"), ("case", .obj [])]], []] := rfl

end

end Pattern

end TestMatrix
