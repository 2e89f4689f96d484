import TestMatrix.Proofs.Tabulation

/-!
# Definitions may stand anywhere

A definition declares a name, and nothing about the node it stands in. The other declarations of a
document are therefore those of the document with all definitions taken out, and the compiler sees of
the definitions no more than the value each name has in the end.
-/

namespace TestMatrix

/-! ## What depends on references depends on their values -/

namespace References

variable {first second : References} (h : ∀ name, first.lookup name = second.lookup name)
include h

theorem find?_congr (target : String) : first.find? target = second.find? target := by
  unfold find?
  split
  · rfl
  · rw [h]

theorem resolve_congr (token : ReferenceToken) : first.resolve token = second.resolve token := by
  unfold resolve
  rw [find?_congr h]

theorem resolveIfToken_congr (value : Json) : first.resolveIfToken value = second.resolveIfToken value := by
  unfold resolveIfToken
  split
  · exact resolve_congr h _
  · rfl

end References

namespace Schema

open Declaration

section
variable {first second : References} (h : ∀ name, first.lookup name = second.lookup name)
include h

theorem predicate_congr (budget : Nat) : predicate first budget = predicate second budget := by
  induction budget with
  | zero =>
    funext raw
    cases raw <;> simp only [predicate]
  | succ budget ih =>
    funext raw
    cases raw <;> simp only [predicate, References.resolve_congr h, ih]

theorem assertion_congr (path : TreePath) (kind : AssertionKind) (expectation : Json) :
    assertion first path kind expectation = assertion second path kind expectation := by
  unfold assertion
  rw [References.resolveIfToken_congr h, predicate_congr h]

theorem rulesAt_congr (declarations : List Declaration) (path : TreePath) :
    rulesAt declarations first path = rulesAt declarations second path := by
  unfold rulesAt
  simp only [assertion_congr h]

end

/-! ## Declarations that are no definitions -/

def describing (declarations : List Declaration) : List Declaration :=
  declarations.filter fun declaration => declaration.content.reference?.isNone

theorem describing_append (first second : List Declaration) :
    describing (first ++ second) = describing first ++ describing second := List.filter_append ..

theorem pathsOf_describing (declarations : List Declaration) :
    pathsOf (describing declarations) = pathsOf declarations :=
  pathsOf_filter (fun content => content.reference?.isNone) declarations rfl

theorem rulesAt_describing (declarations : List Declaration) (references : References) (path : TreePath) :
    rulesAt (describing declarations) references path = rulesAt declarations references path :=
  rulesAt_filter (fun content => content.reference?.isNone) declarations (fun _ _ => rfl) references path

theorem leavesOf_describing (declarations : List Declaration) :
    leavesOf (describing declarations) = leavesOf declarations :=
  leavesOf_filter (fun content => content.reference?.isNone) declarations fun _ => rfl

/-! ## Outcomes -/

/-- The same rules, leaves and domains, and the same value for every name. -/
structure Alike (first second : Schema) : Prop where
  rules : first.rules = second.rules
  leaves : first.leaves = second.leaves
  domains : first.domains = second.domains
  references : ∀ name, first.references.lookup name = second.references.lookup name

/-- Refused for one and the same reason, or compiled to schemas that are alike. -/
inductive SameOutcome {ε : Type} : Except ε Schema → Except ε Schema → Prop
  | refused (reason : ε) : SameOutcome (.error reason) (.error reason)
  | compiled {first second : Schema} : Alike first second → SameOutcome (.ok first) (.ok second)

theorem SameOutcome.mapError {ε ε' : Type} {first second : Except ε Schema} (f : ε → ε')
    (h : SameOutcome first second) : SameOutcome (first.mapError f) (second.mapError f) := by
  cases h with
  | refused reason => exact .refused (f reason)
  | compiled halike => exact .compiled halike

theorem SameOutcome.bind {ε α : Type} {first : Except ε α} {next other : α → Except ε Schema}
    (h : ∀ a, SameOutcome (next a) (other a)) : SameOutcome (first >>= next) (first >>= other) := by
  cases first with
  | error reason => exact .refused reason
  | ok a => exact h a

theorem sameOutcome_ofDeclarations {first second : List Declaration}
    (hdescribing : describing first = describing second)
    (hnames : ∀ name, (referencesOf first).lookup name = (referencesOf second).lookup name) :
    SameOutcome (ofDeclarations first) (ofDeclarations second) := by
  have hpaths : pathsOf first = pathsOf second := by
    rw [← pathsOf_describing first, hdescribing, pathsOf_describing]
  have hrules : ∀ path, rulesAt first (referencesOf first) path = rulesAt second (referencesOf second) path := by
    intro path
    rw [rulesAt_congr hnames, ← rulesAt_describing first, hdescribing, rulesAt_describing]
  have hleaves : leavesOf first = leavesOf second := by
    rw [← leavesOf_describing first, hdescribing, leavesOf_describing]
  unfold ofDeclarations
  simp only [hpaths, hrules, hleaves]
  apply SameOutcome.bind
  intro rules
  apply SameOutcome.bind
  intro _
  exact .compiled ⟨rfl, rfl, rfl, hnames⟩

/-! ## Documents -/

mutual
/-- A document without the definitions at its nodes. -/
def withoutDefinitions : Json → Json
  | .obj fields => .obj (dropDefinitions fields)
  | value => value
def dropDefinitions : List (String × Json) → List (String × Json)
  | [] => []
  | (key, value) :: rest =>
    if beginsWithSlash key then (key, withoutDefinitions value) :: dropDefinitions rest
    else if (definedName? key).isSome then dropDefinitions rest
    else (key, value) :: dropDefinitions rest
end

/-- A key that is no definition is read as something else, or refused. -/
theorem reference?_of_contentOf {path : TreePath} {key : String} {value : Json} {content : Content}
    (hkey : ¬ (definedName? key).isSome = true) (h : contentOf path key value = .ok content) :
    content.reference? = none := by
  rw [(contentOf_ok.mp h).reference?_eq, Option.not_isSome_iff_eq_none.mp hkey]
  rfl

theorem ofFields_dropDefinitions (path : TreePath) : ∀ {fields : List (String × Json)},
    (∀ entry ∈ fields, ∀ path,
      ofNode path (withoutDefinitions entry.2) = (ofNode path entry.2).map describing) →
    ofFields path (dropDefinitions fields) = (ofFields path fields).map describing
  | [], _ => rfl
  | (key, value) :: rest, hvalues => by
    obtain ⟨hvalue, hrest⟩ := List.forall_mem_cons.mp hvalues
    have ih := ofFields_dropDefinitions path hrest
    rw [dropDefinitions]
    by_cases hslash : beginsWithSlash key = true
    · rw [if_pos hslash, ofFields, ofFields, if_pos hslash, if_pos hslash, hvalue, ih]
      cases ofNode (path ++ TreePath.parse key) value with
      | error fault => rfl
      | ok here =>
        cases ofFields path rest with
        | error fault => rfl
        | ok there => exact congrArg Except.ok (describing_append here there).symm
    · rw [if_neg hslash]
      by_cases hname : (definedName? key).isSome = true
      · obtain ⟨name, hname'⟩ := Option.isSome_iff_exists.mp hname
        rw [if_pos hname, ofFields, if_neg hslash, contentOf_ok.mpr (.reference value hname'), ih]
        cases ofFields path rest <;> rfl
      · rw [if_neg hname, ofFields, ofFields, if_neg hslash, if_neg hslash, ih]
        cases hcontent : contentOf path key value with
        | error defect => rfl
        | ok content =>
          cases ofFields path rest with
          | error fault => rfl
          | ok there =>
            have hkept : describing [⟨path, content⟩] = [⟨path, content⟩] := by
              simp [describing, reference?_of_contentOf hname hcontent]
            show Except.ok ([⟨path, content⟩] ++ describing there) = .ok (describing ([⟨path, content⟩] ++ there))
            rw [describing_append, hkept]

theorem ofNode_withoutDefinitions (node : Json) : ∀ path : TreePath,
    ofNode path (withoutDefinitions node) = (ofNode path node).map describing := by
  induction node using Json.children_induction with
  | step node ih =>
    intro path
    cases node with
    | obj fields =>
      have hvalues : ∀ entry ∈ fields, ∀ path,
          ofNode path (withoutDefinitions entry.2) = (ofNode path entry.2).map describing :=
        fun entry hmem => ih _ entry.2 (Json.field_mem_children hmem)
      rw [withoutDefinitions, ofNode, ofNode, ofFields_dropDefinitions path hvalues]
      cases ofFields path fields <;> rfl
    | _ => rfl

/-- **Definitions may stand anywhere.** Two documents that are the same without their definitions, and
in which every name has the same definition last, have the same outcome. -/
theorem compile_of_moved_definitions {first second : Json}
    (hdocument : withoutDefinitions first = withoutDefinitions second)
    (hlast : ∀ name, lastDefinition? first name = lastDefinition? second name) :
    SameOutcome (compile first) (compile second) := by
  have hwalk : (ofSchema first).map describing = (ofSchema second).map describing := by
    rw [ofSchema, ofSchema, ← ofNode_withoutDefinitions, ← ofNode_withoutDefinitions, hdocument]
  unfold compile
  cases hfirst : ofSchema first with
  | error fault =>
    rw [hfirst] at hwalk
    rw [Except.map_eq_error.mp hwalk.symm]
    exact .refused fault
  | ok declarations =>
    rw [hfirst] at hwalk
    obtain ⟨others, hsecond, hothers⟩ := Except.map_eq_ok.mp hwalk.symm
    have hnames : ∀ name, (referencesOf declarations).lookup name = (referencesOf others).lookup name := by
      intro name
      rw [referencesOf_eq hfirst, referencesOf_eq hsecond, Fields.lookup_ofEntries, Fields.lookup_ofEntries]
      exact hlast name
    rw [hsecond]
    exact (sameOutcome_ofDeclarations hothers.symm hnames).mapError Fault.schema

/-- The allowed set of a field is reached through two definitions, one of which is made twice. -/
theorem compile_of_moved_definitions_twice :
    SameOutcome
      (compile (.obj [("#kind", .arr [.str "x"]), ("#fields", .obj [("kind", .str "@kind")]),
        ("/a/*", .obj [("matches", .str "@fields"), ("#kind", .arr [.str "y"])])]))
      (compile (.obj [("/a/*", .obj [("#kind", .arr [.str "x"]), ("matches", .str "@fields")]),
        ("#kind", .arr [.str "y"]), ("#fields", .obj [("kind", .str "@kind")])])) := by
  refine compile_of_moved_definitions rfl fun name => ?_
  show ([("kind", Json.arr [.str "x"]), ("fields", .obj [("kind", .str "@kind")]), ("kind", .arr [.str "y"])].filterMap
      fun entry => if entry.1 = name then some entry.2 else none).getLast? =
    ([("kind", Json.arr [.str "x"]), ("kind", .arr [.str "y"]), ("fields", .obj [("kind", .str "@kind")])].filterMap
      fun entry => if entry.1 = name then some entry.2 else none).getLast?
  by_cases hkind : "kind" = name
  · subst hkind; rfl
  · by_cases hfields : "fields" = name
    · subst hfields; rfl
    · simp [hkind, hfields]

end Schema

end TestMatrix
