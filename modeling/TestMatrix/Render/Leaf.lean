import TestMatrix.Render.Script
import TestMatrix.Template

/-! # Rendering one leaf

The context of a candidate holds everything its templates may name. The `when` rules of the leaf run
over it first, in order, and may deliver artifacts or extend it; the artifact of the leaf itself
comes last. -/

namespace TestMatrix

/-- The key of the generation mode in every context. -/
def modeKey : String := "generation_mode"

/-- The key of the candidate's number in every context. -/
def indexKey : String := "emission_index"

namespace Context

def setAll (context : Fields) (entries : List (String × Json)) : Fields :=
  entries.foldl (fun context entry => Fields.set context entry.1 entry.2) context

/-- The fields of the ancestors, the closest first, each under a prefix of one underscore more than
the one before. -/
def ancestorEntries : String → List Fields → List (String × Json)
  | _, [] => []
  | underscores, ancestor :: rest =>
    ancestor.map (fun (key, value) => (underscores ++ key, value)) ++
      ancestorEntries (underscores ++ "_") rest

/-- The context of a candidate. Later layers replace earlier ones: the defaults of the leaf, the
mode and the number, the selection, and the ancestors from the closest to the outermost. -/
def build (defaults : Fields) (mode : String) (index : Nat) (selection : Fields)
    (ancestors : List Fields) : Fields :=
  let reserved := Fields.set (Fields.set defaults modeKey (.str mode)) indexKey (.num (.int index))
  setAll (setAll reserved selection) (ancestorEntries "_" ancestors.reverse)

end Context

namespace Render

/-- Renders the reference of a template and fetches it. -/
def fetch (reference : String) (context : Fields) : Rendering String := do
  let reference ← Rendering.ofDefect (Template.render false reference context)
  Rendering.fetch reference

/-- Renders the named parts of a template, each with the context of the candidate alone. -/
def parts (context : Fields) : List (String × String) → Rendering (List (String × Json))
  | [] => pure []
  | (key, reference) :: rest => do
    let text ← fetch reference context
    let rendered ← Rendering.ofDefect (Template.render false text context)
    let others ← parts context rest
    pure ((key, .str rendered) :: others)

/-- The content of an artifact. The parts of a template are rendered before the template itself,
which sees them under their names. -/
def content (required : Bool) (source : TemplateSource) (context : Fields) : Rendering String :=
  match source with
  | .inline text => Rendering.ofDefect (Template.render required text context)
  | .external main named => do
    let rendered ← parts context named
    let text ← fetch main context
    Rendering.ofDefect (Template.render required text (Context.setAll context rendered))

/-- Whether both templates of some pair render to the same text. Pairs after that one are not
rendered. -/
def fires (context : Fields) : List (String × String) → Except SchemaDefect Bool
  | [] => .ok false
  | (left, right) :: rest => do
    let left ← Template.render false left context
    let right ← Template.render false right context
    if left = right then .ok true else fires context rest

/-- Runs one action and gives the context after it. -/
def action (required : Bool) (context : Fields) : WhenAction → Rendering Fields
  | .generate path template => do
    let path ← Rendering.ofDefect (Template.render required path context)
    let text ← content required template context
    Rendering.deliver ⟨path, text⟩
    pure context
  | .setExtension key template => do
    let text ← Rendering.ofDefect (Template.render required template context)
    pure (Fields.set context key (.str text))

def actions (required : Bool) (context : Fields) : List WhenAction → Rendering Fields
  | [] => pure context
  | next :: rest => do
    let context ← action required context next
    actions required context rest

/-- Runs the rules in order, each on the context that the one before left. -/
def conditions (required : Bool) (context : Fields) : List WhenRule → Rendering Fields
  | [] => pure context
  | rule :: rest => do
    if ← Rendering.ofDefect (fires context rule.pairs) then
      let context ← actions required context rule.actions
      conditions required context rest
    else conditions required context rest

/-- Renders a leaf for one candidate. -/
def leaf (required : Bool) (leafPath : TreePath) (leaf : LeafRule) (context : Fields) :
    Rendering Unit :=
  match leaf.path, leaf.template with
  | some path, some template => do
    let context ← conditions required context leaf.conditions
    let path ← Rendering.ofDefect (Template.render false path context)
    let text ← content false template context
    Rendering.deliver ⟨path, text⟩
    Rendering.note ⟨.debug, "leaf rendered", [("leaf", .str leafPath.text), ("path", .str path)]⟩
  | _, _ => throw (.schema (.invalidMarker "path" leafPath .incomplete))

end Render

end TestMatrix
