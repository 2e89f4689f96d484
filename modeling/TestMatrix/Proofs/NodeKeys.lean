import TestMatrix.Proofs.Compiled
import TestMatrix.Proofs.PathText

/-!
# One key or two

A key with several parts describes all nodes on its way, as keys one within the other do. The longer way round
declares a few nodes more, but only such as stand above another one, and those are described in any case.
Main statement: how the keys of a schema are divided does not matter, whatever stands around them and
below them, faults included.
-/

namespace TestMatrix

namespace Declaration

theorem eq_slash_append {key : String} (h : beginsWithSlash key = true) : ∃ rest, key = "/" ++ rest := by
  obtain ⟨rest, hrest⟩ := List.head?_eq_some_iff.mp (eq_of_beq h)
  exact ⟨String.ofList rest, by simp [← String.toList_inj, hrest]⟩

theorem beginsWithSlash_append {outer : String} (h : beginsWithSlash outer = true) (inner : String) :
    beginsWithSlash (outer ++ inner) = true := by
  obtain ⟨rest, rfl⟩ := eq_slash_append h
  simp [beginsWithSlash]

theorem parse_append_of_slash (outer : String) {inner : String} (h : beginsWithSlash inner = true) :
    TreePath.parse (outer ++ inner) = TreePath.parse outer ++ TreePath.parse inner := by
  obtain ⟨rest, rfl⟩ := eq_slash_append h
  have hrest : TreePath.parse ("/" ++ rest) = TreePath.parse rest := TreePath.parse_append "" rest
  rw [hrest, ← String.append_assoc, TreePath.parse_append]

end Declaration

/-! ## Declarations that come to the same -/

def Content.isNode : Content → Bool
  | .node => true
  | _ => false

namespace Schema

open Declaration

/-- What is said of the nodes, in document order. -/
def said (declarations : List Declaration) : List Declaration :=
  declarations.filter fun declaration => !declaration.content.isNode

theorem said_append (first second : List Declaration) : said (first ++ second) = said first ++ said second :=
  List.filter_append ..

theorem mem_pathsOf_append {first second : List Declaration} {path : TreePath} :
    path ∈ pathsOf (first ++ second) ↔ path ∈ pathsOf first ∨ path ∈ pathsOf second := by
  simp only [mem_pathsOf, List.mem_append, or_and_right, exists_or]

/-- The same is said, and the same paths are described. -/
structure Interchangeable (first second : List Declaration) : Prop where
  same : said first = said second
  described : ∀ path, path ∈ pathsOf first ↔ path ∈ pathsOf second

namespace Interchangeable

variable {first second third fourth : List Declaration}

theorem refl (declarations : List Declaration) : Interchangeable declarations declarations := ⟨rfl, fun _ => Iff.rfl⟩

theorem append (h : Interchangeable first second) (h' : Interchangeable third fourth) :
    Interchangeable (first ++ third) (second ++ fourth) := by
  refine ⟨by rw [said_append, said_append, h.same, h'.same], fun path => ?_⟩
  rw [mem_pathsOf_append, mem_pathsOf_append, h.described, h'.described]

/-- A node above one that is declared need not be declared itself. -/
theorem cons_node {path below : TreePath} {declarations : List Declaration} (habove : path <+: below)
    (hbelow : ⟨below, .node⟩ ∈ declarations) : Interchangeable (⟨path, .node⟩ :: declarations) declarations := by
  refine ⟨rfl, fun other => ?_⟩
  rw [← List.singleton_append, mem_pathsOf_append]
  constructor
  · intro h
    rcases h with h | h
    · obtain ⟨place, hplace, hother⟩ := mem_pathsOf.mp h
      cases List.mem_singleton.mp hplace
      exact mem_pathsOf.mpr ⟨below, hbelow, hother.trans habove⟩
    · exact h
  · exact Or.inr

end Interchangeable

theorem ofDeclarations_of_interchangeable {first second : List Declaration} (h : Interchangeable first second) :
    ofDeclarations first = ofDeclarations second := by
  have hpaths : pathsOf first = pathsOf second := by
    apply sortedPaths_congr
    exact fun path => mem_sortedPaths.symm.trans ((h.described path).trans mem_sortedPaths)
  have hreferences (declarations : List Declaration) : referencesOf (said declarations) = referencesOf declarations :=
    referencesOf_filter (fun content => !content.isNode) declarations fun _ _ => rfl
  have hrules (declarations : List Declaration) (references : References) (path : TreePath) :
      rulesAt (said declarations) references path = rulesAt declarations references path :=
    rulesAt_filter (fun content => !content.isNode) declarations (fun _ _ => rfl) references path
  have hleaves (declarations : List Declaration) : leavesOf (said declarations) = leavesOf declarations :=
    leavesOf_filter (fun content => !content.isNode) declarations fun _ => rfl
  unfold ofDeclarations
  simp only [hpaths, ← hreferences first, ← hleaves first, ← hrules first, h.same, hreferences, hrules, hleaves]

/-- Refused for one and the same reason, or read as declarations that come to the same. -/
inductive SameReading : Except Fault (List Declaration) → Except Fault (List Declaration) → Prop
  | refused (fault : Fault) : SameReading (.error fault) (.error fault)
  | read {first second : List Declaration} : Interchangeable first second → SameReading (.ok first) (.ok second)

namespace SameReading

variable {first second third fourth : Except Fault (List Declaration)}

theorem refl (reading : Except Fault (List Declaration)) : SameReading reading reading := by
  cases reading with
  | error fault => exact .refused fault
  | ok declarations => exact .read (.refl declarations)

theorem append (h : SameReading first second) (h' : SameReading third fourth) :
    SameReading (first >>= fun here => third >>= fun there => pure (here ++ there))
      (second >>= fun here => fourth >>= fun there => pure (here ++ there)) := by
  cases h with
  | refused fault => exact .refused fault
  | read h =>
    cases h' with
    | refused fault => exact .refused fault
    | read h' => exact .read (h.append h')

theorem outcome (h : SameReading first second) :
    (first.bind fun declarations => (ofDeclarations declarations).mapError Fault.schema) =
      second.bind fun declarations => (ofDeclarations declarations).mapError Fault.schema := by
  cases h with
  | refused fault => rfl
  | read h => exact congrArg (Except.mapError Fault.schema) (ofDeclarations_of_interchangeable h)

end SameReading

/-! ## Keys of nodes -/

theorem sameReading_fields {path : TreePath} {entry other : String × Json}
    (h : SameReading (ofEntry path entry) (ofEntry path other)) (after : Fields) : ∀ before : Fields,
    SameReading (ofFields path (before ++ entry :: after)) (ofFields path (before ++ other :: after))
  | [] => by
    rw [List.nil_append, List.nil_append, ofFields_cons, ofFields_cons]
    exact h.append (.refl _)
  | earlier :: before => by
    rw [List.cons_append, List.cons_append, ofFields_cons, ofFields_cons]
    exact SameReading.append (.refl _) (sameReading_fields h after before)

theorem sameReading_node {path : TreePath} {fields others : Fields}
    (h : SameReading (ofFields path fields) (ofFields path others)) :
    SameReading (ofNode path (.obj fields)) (ofNode path (.obj others)) := by
  rw [ofNode, ofNode]
  exact SameReading.append (.refl (.ok [⟨path, .node⟩])) h

theorem ofEntry_of_slash {key : String} (h : beginsWithSlash key = true) (path : TreePath) (value : Json) :
    ofEntry path (key, value) = ofNode (path ++ TreePath.parse key) value := if_pos h

/-- A node with one key, and this key of a node, is read as the node below it. -/
theorem sameReading_single {key : String} (h : beginsWithSlash key = true) (path : TreePath) (value : Json) :
    SameReading (ofNode path (.obj [(key, value)])) (ofNode (path ++ TreePath.parse key) value) := by
  rw [ofNode, ofFields_cons, ofEntry_of_slash h]
  cases hbelow : ofNode (path ++ TreePath.parse key) value with
  | error fault => exact .refused fault
  | ok found =>
    -- the node below is declared first of all, so the one above adds no path
    obtain ⟨fields, inside, -, -, rfl⟩ := ofNode_eq_ok.mp hbelow
    refine .read ?_
    rw [List.append_nil]
    exact .cons_node (List.prefix_append _ _) (List.mem_cons_self ..)

/-! ## Documents -/

/-- Documents in which the keys of one node are divided differently. Nodes are what keys with a slash lead to;
expectations and definitions may hold such keys as well, and there they mean something else. -/
inductive Respelled : Json → Json → Prop
  | joined {outer inner : String} (before after : Fields) (value : Json) : beginsWithSlash outer = true →
    beginsWithSlash inner = true →
    Respelled (.obj (before ++ (outer, .obj [(inner, value)]) :: after))
      (.obj (before ++ (outer ++ inner, value) :: after))
  | wrapped (node : Json) : Respelled (.obj [("/", node)]) node
  | within {key : String} (before after : Fields) {first second : Json} : beginsWithSlash key = true →
    Respelled first second →
    Respelled (.obj (before ++ (key, first) :: after)) (.obj (before ++ (key, second) :: after))

theorem sameReading_respelled {first second : Json} (h : Respelled first second) :
    ∀ path : TreePath, SameReading (ofNode path first) (ofNode path second) := by
  induction h with
  | @joined outer inner before after value houter hinner =>
    intro path
    refine sameReading_node (sameReading_fields ?_ after before)
    rw [ofEntry_of_slash houter, ofEntry_of_slash (beginsWithSlash_append houter inner),
      parse_append_of_slash outer hinner, ← List.append_assoc]
    exact sameReading_single hinner _ value
  | wrapped node =>
    intro path
    have hsingle := @sameReading_single "/" rfl path node
    have hroot : TreePath.parse "/" = [] := rfl
    rwa [hroot, List.append_nil] at hsingle
  | within before after hkey _ ih =>
    intro path
    refine sameReading_node (sameReading_fields ?_ after before)
    rw [ofEntry_of_slash hkey, ofEntry_of_slash hkey]
    exact ih _

/-- **Keys of nodes.** Two keys of which one alone stands within the other are as good as one key with the parts
of both, and a node with no key but `/` is as good as the node behind it. Wherever this stands in a
document, it is refused with the same fault or compiled to the same tables. -/
theorem compile_respelled {first second : Json} (h : Respelled first second) : compile first = compile second :=
  (sameReading_respelled h .root).outcome

/-- Slashes are doubled where the keys meet, and an unused definition follows. -/
def dividedKeys : Json :=
  .obj [("/a", .obj [("/b/", .obj [("//c/*", .obj [("has_keys", .arr [.str "x"])])]), ("#kind", .arr [])])]

def joinedKeys : Json := .obj [("/a", .obj [("/b///c/*", .obj [("has_keys", .arr [.str "x"])]), ("#kind", .arr [])])]

theorem divided_keys_compile : Respelled dividedKeys joinedKeys ∧ compile dividedKeys = compile joinedKeys ∧
    ∃ schema, compile dividedKeys = .ok schema ∧ schema.rules.entries.map (fun entry => entry.1.text) =
      ["/", "/a", "/a/b", "/a/b/c", "/a/b/c/*"] := by
  have hkeys : Respelled dividedKeys joinedKeys := by
    refine .within [] [] rfl ?_
    exact @Respelled.joined "/b/" "//c/*" [] [("#kind", .arr [])] _ rfl rfl
  refine ⟨hkeys, compile_respelled hkeys, ?_⟩
  rw [compile_respelled hkeys]
  exact ⟨_, rfl, rfl⟩

end Schema

end TestMatrix
