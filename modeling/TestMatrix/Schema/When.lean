import TestMatrix.Schema.Defect

/-! # The `when` block of a leaf

A block is first checked as a whole, and every issue is reported; only a block without issues is
decoded. -/

namespace TestMatrix

/-- Decodes the content of an artifact: a string, or a mapping of strings with a `main` entry. -/
def TemplateSource.ofJson? : Json → Option TemplateSource
  | .str text => some (.inline text)
  | .obj fields =>
    match (fields.lookup "main").bind Json.str? with
    | none => none
    | some main =>
      let parts := fields.filter fun (name, _) => name != "main"
      (parts.mapM fun (part : String × Json) => part.2.str?.map fun text => (part.1, text)).map
        fun parts => .external main (sortByName parts)
  | _ => none

namespace When

/-- A string, or a mapping whose `main` is one. -/
def isTemplateShape : Json → Bool
  | .str _ => true
  | .obj fields => ((fields.lookup "main").bind Json.str?).isSome
  | _ => false

/-- The shape of an action: the fields it needs for what it does. Others are allowed. -/
def isActionShape : Json → Bool
  | .obj fields =>
    let isString (name : String) := ((fields.lookup name).bind Json.str?).isSome
    match (fields.lookup "action").bind Json.str? with
    | some "generate" =>
      isString "path" && (match fields.lookup "template" with
        | some template => isTemplateShape template
        | none => false)
    | some "set_extension" => isString "key" && isString "template"
    | _ => false
  | _ => false

def positions {α : Type} (items : List α) : List (String × α) :=
  items.zipIdx.map fun (item, position) => (toString position, item)

/-- A pair of templates: its items first, then its length. -/
def pairIssues (place : List String) (pair : Json) : List WhenIssue :=
  match pair with
  | .arr items =>
    ((positions items).flatMap fun (position, item) =>
      match item with
      | .str _ => []
      | _ => [⟨place ++ [position], .notString item⟩]) ++
    (if items.length < 2 then [⟨place, .tooFew pair⟩]
     else if 2 < items.length then [⟨place, .tooMany pair⟩] else [])
  | _ => [⟨place, .notList pair⟩]

def actionIssues (place : List String) (action : Json) : List WhenIssue :=
  if isActionShape action then [] else [⟨place, .badAction action⟩]

/-- The issues below one entry of a rule. -/
def entryIssues (place : List String) (name : String) (value : Json) : List WhenIssue :=
  let each (check : List String → Json → List WhenIssue) : List WhenIssue :=
    match value with
    | .arr items =>
      (positions items).flatMap fun (position, item) => check (place ++ [name, position]) item
    | _ => [⟨place ++ [name], .notList value⟩]
  match name with
  | "match_any" => each pairIssues
  | "do" => each actionIssues
  | _ => []

/-- The issues of a rule: missing entries, what is wrong below its entries as they stand, and last
the entries that do not belong there. -/
def ruleIssues (place : List String) (rule : Json) : List WhenIssue :=
  match rule with
  | .obj fields =>
    let missing := ["do", "match_any"].filter fun name => (fields.lookup name).isNone
    let unexpected := (Fields.keys fields).filter fun name => name != "do" && name != "match_any"
    missing.map (fun name => ⟨place, .missing name⟩) ++
      fields.flatMap (fun (name, value) => entryIssues place name value) ++
      (if unexpected.isEmpty then [] else [⟨place, .unexpected unexpected⟩])
  | _ => [⟨place, .notDict rule⟩]

def issues (block : Json) : List WhenIssue :=
  match block with
  | .arr rules => (positions rules).flatMap fun (position, rule) => ruleIssues [position] rule
  | _ => [⟨[], .notList block⟩]

/-! ## Decoding -/

def decodePair? : Json → Option (String × String)
  | .arr [.str left, .str right] => some (left, right)
  | _ => none

def decodeAction? : Json → Option WhenAction
  | .obj fields =>
    let string (name : String) := (fields.lookup name).bind Json.str?
    match string "action" with
    | some "generate" => do
      let path ← string "path"
      let template ← (fields.lookup "template").bind TemplateSource.ofJson?
      pure (.generate path template)
    | some "set_extension" => do
      let key ← string "key"
      let template ← string "template"
      pure (.setExtension key template)
    | _ => none
  | _ => none

def decodeRule? : Json → Option WhenRule
  | .obj fields => do
    let pairs ← (fields.lookup "match_any").bind Json.arr?
    let actions ← (fields.lookup "do").bind Json.arr?
    pure ⟨← pairs.mapM decodePair?, ← actions.mapM decodeAction?⟩
  | _ => none

/-- The rules of a block. -/
def parse (block : Json) : Except WhenFault (List WhenRule) :=
  match issues block with
  | [] =>
    match (block.arr?.bind fun rules => rules.mapM decodeRule?) with
    | some rules => .ok rules
    | none => .error .badTemplate
  | found => .error (.issues found)

end When

end TestMatrix
