import TestMatrix.Schema.When
import TestMatrix.Spec.Violation

/-! # Declarations

A schema document is flattened into the declarations it makes, in document order. Each stands at the
path of the keys around it that begin with a slash; a key of several parts describes them all. -/

namespace TestMatrix

/-- What one leaf marker sets. -/
inductive Marker where
  | action (value : LeafAction)
  | path (value : String)
  | template (value : TemplateSource)
  | conditions (value : List WhenRule)
  | defaults (value : Fields)

def Marker.set (leaf : LeafRule) : Marker → LeafRule
  | .action value => { leaf with action := value }
  | .path value => { leaf with path := some value }
  | .template value => { leaf with template := some value }
  | .conditions value => { leaf with conditions := value }
  | .defaults value => { leaf with defaults := value }

inductive Content where
  /-- A mapping that describes the nodes at the path. -/
  | node
  | assertion (kind : AssertionKind) (expectation : Json)
  | reference (name : String) (value : Json)
  | marker (marker : Marker)

structure Declaration where
  path : TreePath
  content : Content

namespace Declaration

/-- The marker of this name with this value; none for other names. -/
def marker? (path : TreePath) (name : String) (value : Json) :
    Option (Except SchemaDefect Marker) :=
  let refuse (fault : MarkerFault) : Except SchemaDefect Marker :=
    .error (.invalidMarker name path fault)
  match name with
  | "action" => some <|
    match value with
    | .str "generate" => .ok (.action .generate)
    | .str "suppress" => .ok (.action .suppress)
    | _ => refuse .unknownAction
  | "path" => some <|
    match value with
    | .str template => .ok (.path template)
    | _ => refuse .notString
  | "template" => some <|
    match TemplateSource.ofJson? value with
    | some source => .ok (.template source)
    | none => refuse .notTemplate
  | "when" => some <|
    match When.parse value with
    | .ok rules => .ok (.conditions rules)
    | .error fault => .error (.invalidWhen path fault)
  | "defaults" => some <|
    match value with
    | .obj fields => .ok (.defaults fields)
    | _ => refuse .notDict
  | _ => none

/-- What a key that does not begin with a slash declares. -/
def contentOf (path : TreePath) (key : String) (value : Json) : Except SchemaDefect Content :=
  match AssertionKind.ofName? key with
  | some kind => .ok (.assertion kind value)
  | none =>
    match key.toList with
    | '#' :: name => .ok (.reference (String.ofList name) value)
    | _ =>
      match marker? path key value with
      | some marker => marker.map .marker
      | none => .error (.invalidKey key path)

def beginsWithSlash (key : String) : Bool := key.toList.head? == some '/'

mutual
/-- The declarations of the node at a path, and of all below it. -/
def ofNode (path : TreePath) : Json → Except Fault (List Declaration)
  | .obj fields => do
    let inside ← ofFields path fields
    pure (⟨path, .node⟩ :: inside)
  | _ => .error (.spec ⟨path, .schemaNodeNotDict path⟩)
def ofFields (path : TreePath) : List (String × Json) → Except Fault (List Declaration)
  | [] => pure []
  | (key, value) :: rest => do
    let here ←
      if beginsWithSlash key then ofNode (path ++ TreePath.parse key) value
      else ((contentOf path key value).mapError Fault.schema).map fun content => [⟨path, content⟩]
    let there ← ofFields path rest
    pure (here ++ there)
end

def ofSchema (schema : Json) : Except Fault (List Declaration) := ofNode .root schema

end Declaration

end TestMatrix
