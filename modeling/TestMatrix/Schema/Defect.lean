import TestMatrix.Schema.Model
import TestMatrix.TreePath

/-! # Defects of a schema

A defect is a mistake of the schema's author, or of a template. Each has one cause and one text. -/

namespace TestMatrix

/-- What is wrong at one place of a `when` block. -/
inductive WhenProblem where
  | notList (found : Json)
  | notDict (found : Json)
  | notString (found : Json)
  | tooFew (found : Json)
  | tooMany (found : Json)
  | missing (name : String)
  | unexpected (names : List String)
  | badAction (found : Json)

/-- A problem with the place it was found at, the keys and positions from the top of the block. -/
structure WhenIssue where
  place : List String
  problem : WhenProblem

inductive WhenFault where
  | issues (found : List WhenIssue)
  /-- A template with a named part that is no string. -/
  | badTemplate

def WhenProblem.message : WhenProblem → String
  | .notList found => found.compact ++ " is not of type \"array\""
  | .notDict found => found.compact ++ " is not of type \"object\""
  | .notString found => found.compact ++ " is not of type \"string\""
  | .tooFew found => found.compact ++ " has less than 2 items"
  | .tooMany found => found.compact ++ " has more than 2 items"
  | .missing name => s!"\"{name}\" is a required property"
  | .unexpected names =>
    let quoted := String.intercalate ", " (names.map fun name => "'" ++ name ++ "'")
    let verb := if names.length = 1 then "was" else "were"
    s!"Additional properties are not allowed ({quoted} {verb} unexpected)"
  | .badAction found =>
    found.compact ++ " is not valid under any of the schemas listed in the 'oneOf' keyword"

def WhenIssue.message (issue : WhenIssue) : String :=
  let pointer :=
    if issue.place.isEmpty then "/" else String.join (issue.place.map fun step => "/" ++ step)
  pointer ++ ": " ++ issue.problem.message

def WhenFault.message : WhenFault → String
  | .issues found => String.intercalate "; " (found.map WhenIssue.message)
  | .badTemplate => "data did not match any variant of untagged enum TemplateSource"

/-- Why the value of a leaf marker is refused. -/
inductive MarkerFault where
  | unknownAction
  | notString
  | notTemplate
  | notDict
  /-- The leaf generates and lacks the marker. -/
  | incomplete

def MarkerFault.message : MarkerFault → String
  | .unknownAction => "expected \"generate\" or \"suppress\""
  | .notString => "expected a string"
  | .notTemplate => "expected a string or a dict with a \"main\" entry and string sub-templates"
  | .notDict => "expected a dict"
  | .incomplete => "a generating leaf needs both \"path\" and \"template\""

/-- Why a template cannot be rendered. -/
inductive TemplateFault where
  /-- A percent sign that starts no placeholder, at this many bytes from the start. -/
  | incomplete (offset : Nat)
  | missingKey (key : String)
  | notNumber (value : Json)
  | unchanged

def TemplateFault.message : TemplateFault → String
  | .incomplete offset => s!"incomplete format at offset {offset}"
  | .missingKey key => s!"missing key '{key}'"
  | .notNumber value => s!"%d format requires a number, got '{value.display}'"
  | .unchanged => "template produced no substitution"

inductive SchemaDefect where
  | invalidKey (key : String) (path : TreePath)
  | invalidReference (target : String)
  | unknownPredicate (name : String)
  | fieldsNotDict (found : Json)
  | keysNotList (path : TreePath) (found : Json)
  | invalidMarker (marker : String) (path : TreePath) (fault : MarkerFault)
  | invalidWhen (path : TreePath) (fault : WhenFault)
  | template (text : String) (fault : TemplateFault)

def SchemaDefect.message : SchemaDefect → String
  | .invalidKey key path => s!"Invalid key '{key}' in schema at '{path.text}'"
  | .invalidReference target => s!"Invalid reference '{target}'"
  | .unknownPredicate name => s!"Non-existing assertion method \"{name}\""
  | .fieldsNotDict found =>
    s!"Schema \"matches\" operator expects a dict or schema reference, got '{found.display}'"
  | .keysNotList path found =>
    s!"Schema \"has_keys\" operator at '{path.text}' has an invalid expectation: " ++
      s!"expected a list of keys, got '{found.display}'"
  | .invalidMarker marker path fault =>
    s!"Invalid leaf marker \"{marker}\" at '{path.text}': {fault.message}"
  | .invalidWhen path fault => s!"Invalid \"when\" rules at '{path.text}': {fault.message}"
  | .template text fault => s!"Failed to render template '{text}': {fault.message}"

end TestMatrix
