import TestMatrix.Schema.Declaration
import TestMatrix.Schema.Reference
import TestMatrix.Table

/-! # Compiled schemas

The declarations of a schema become four tables: assertions by path, references by name, leaves by
path, and the domains of fields that draw from an allowed set. Expectations are read only when every
reference is known, so it does not matter where a reference is defined. -/

namespace TestMatrix

structure Schema where
  rules : Table (List Rule)
  references : References
  leaves : Table LeafRule
  domains : Table (List Json)

namespace Schema

/-! ## Predicates and assertions -/

/-- How many references one within another may be unfolded. -/
def unfoldingLimit : Nat := 32

def primitive (name : String) : Except SchemaDefect Predicate :=
  match Predicate.primitive? name with
  | some predicate => .ok predicate
  | none => .error (.unknownPredicate name)

/-- Reads the predicate of each field in turn. -/
def namedRules (read : Json → Except SchemaDefect Predicate) :
    List (String × Json) → Except SchemaDefect (List (String × Predicate))
  | [] => .ok []
  | (name, raw) :: rest => do
    let rule ← read raw
    let rules ← namedRules read rest
    pure ((name, rule) :: rules)

/-- Reads a predicate: the name of a primitive, a list of allowed values, or a token that stands for
one of these or for the fields of a mapping. The budget counts the tokens that may still be unfolded
one within another. -/
def predicate (references : References) (budget : Nat) (raw : Json) :
    Except SchemaDefect Predicate :=
  match raw with
  | .str name =>
    match ReferenceToken.parse? name with
    | none => primitive name
    | some token =>
      match budget with
      | 0 => .error (.invalidReference token.target)
      | budget + 1 =>
        match references.resolve token with
        | .error defect => .error defect
        | .ok (.arr allowed) => .ok (.oneOf allowed)
        | .ok (.obj fields) => (namedRules (predicate references budget) fields).map .fields
        | .ok (.str name) => primitive name
        | .ok other => .error (.unknownPredicate other.display)
  | .arr allowed => .ok (.oneOf allowed)
  | other => .error (.unknownPredicate other.display)

def strings? (items : List Json) : Option (List String) := items.mapM Json.str?

def assertion (references : References) (path : TreePath) (kind : AssertionKind)
    (expectation : Json) : Except SchemaDefect Assertion :=
  match kind with
  | .exactFields => do
    match ← references.resolveIfToken expectation with
    | .obj fields => (namedRules (predicate references unfoldingLimit) fields).map .exactFields
    | _ => .error (.fieldsNotDict expectation)
  | .exactKeys => do
    match (← references.resolveIfToken expectation).arr?.bind strings? with
    | some keys => pure (.exactKeys keys)
    | none => .error (.keysNotList path expectation)
  | .eachValue => (predicate references unfoldingLimit expectation).map .eachValue

/-! ## Tables -/

/-- The last definition of each name. -/
def referencesOf (declarations : List Declaration) : References :=
  declarations.foldl (fun references declaration =>
    match declaration.content with
    | .reference name value => Fields.set references name value
    | _ => references) []

/-- The paths that a schema describes: those of its nodes and all paths above them. -/
def pathsOf (declarations : List Declaration) : List TreePath :=
  sortedPaths (declarations.flatMap fun declaration =>
    match declaration.content with
    | .node => declaration.path.prefixes
    | _ => [])

/-- The assertions declared at a path, in document order. -/
def rulesAt (declarations : List Declaration) (references : References) (path : TreePath) :
    Except SchemaDefect (List Rule) :=
  (declarations.filterMap fun declaration =>
    match declaration.content with
    | .assertion kind expectation =>
      if declaration.path = path then some (kind, expectation) else none
    | _ => none).mapM fun (kind, expectation) =>
      (assertion references path kind expectation).map fun assertion => ⟨assertion, expectation⟩

/-- The leaves with all markers set that are declared at their paths. -/
def leavesOf (declarations : List Declaration) : Table LeafRule :=
  declarations.foldl (fun leaves declaration =>
    match declaration.content with
    | .marker marker =>
      leaves.insert declaration.path
        (marker.set ((leaves.get? declaration.path).getD LeafRule.empty))
    | _ => leaves) Table.empty

/-- A leaf that generates has a path and a template. -/
def checkLeaf (path : TreePath) (leaf : LeafRule) : Except SchemaDefect Unit :=
  match leaf.action, leaf.path, leaf.template with
  | .suppress, _, _ => .ok ()
  | .generate, none, _ => .error (.invalidMarker "path" path .incomplete)
  | .generate, some _, none => .error (.invalidMarker "template" path .incomplete)
  | .generate, some _, some _ => .ok ()

/-- The allowed sets of fields, without the wildcard. A later rule at a path replaces an earlier. -/
def domainsOf (rules : List (TreePath × List Rule)) : Table (List Json) :=
  let fields := rules.flatMap fun (path, rules) => rules.flatMap fun rule =>
    match rule.assertion with
    | .exactFields fields => fields.map fun (name, rule) => (path.childKey name, rule)
    | _ => []
  fields.foldl (fun domains (path, rule) =>
    match rule with
    | .oneOf allowed => domains.insert path (allowed.filter fun value => !value.isWildcard)
    | _ => domains) Table.empty

/-- Reads the expectations in the order of their paths, then checks the leaves. -/
def ofDeclarations (declarations : List Declaration) : Except SchemaDefect Schema := do
  let references := referencesOf declarations
  let rules ← (pathsOf declarations).mapM fun path =>
    (rulesAt declarations references path).map fun rules => (path, rules)
  let leaves := leavesOf declarations
  leaves.entries.forM fun (path, leaf) => checkLeaf path leaf
  pure ⟨⟨rules⟩, references, leaves, domainsOf rules⟩

def compile (schema : Json) : Except Fault Schema :=
  (Declaration.ofSchema schema).bind fun declarations =>
    (ofDeclarations declarations).mapError Fault.schema

end Schema

end TestMatrix
