import TestMatrix.Schema.Defect

/-! # Templates

`%(key)s` stands for the text of a value, `%(key)d` for a number without its fraction, and `%%` for
a percent sign. A percent sign that begins none of these is a fault. Substituted text is not looked
at again. -/

namespace TestMatrix

namespace Template

/-- Where the reader of a template is. All but the first remember the offset of the percent sign. -/
inductive Mode where
  | literal
  | percent (start : Nat)
  /-- Inside the parentheses; the characters of the key stand last first. -/
  | key (start : Nat) (done : List Char)
  | conversion (start : Nat) (key : String)

/-- The text of a value under a conversion letter; none for other letters. -/
def convert? (values : Fields) (key : String) (letter : Char) :
    Option (Except TemplateFault String) :=
  let value : Except TemplateFault Json :=
    match values.lookup key with
    | some value => .ok value
    | none => .error (.missingKey key)
  match letter with
  | 's' => some (value.map Json.display)
  | 'd' => some (value.bind fun value =>
    match value with
    | .num number => .ok (String.ofList (Number.intChars number.truncated))
    | other => .error (.notNumber other))
  | _ => none

/-- Reads the rest of a template; `offset` counts the bytes before it. -/
def run (values : Fields) : Mode → Nat → List Char → Except TemplateFault (List Char)
  | .literal, _, [] => .ok []
  | .percent start, _, [] | .key start _, _, [] | .conversion start _, _, [] =>
    .error (.incomplete start)
  | mode, offset, c :: rest =>
    let after := offset + c.utf8Size
    match mode with
    | .literal =>
      if c = '%' then run values (.percent offset) after rest
      else (run values .literal after rest).map fun tail => c :: tail
    | .percent start =>
      if c = '%' then (run values .literal after rest).map fun tail => '%' :: tail
      else if c = '(' then run values (.key start []) after rest
      else .error (.incomplete start)
    | .key start done =>
      if c = ')' then run values (.conversion start (String.ofList done.reverse)) after rest
      else run values (.key start (c :: done)) after rest
    | .conversion start key =>
      match convert? values key c with
      | none => .error (.incomplete start)
      | some (.error fault) => .error fault
      | some (.ok text) => (run values .literal after rest).map fun tail => text.toList ++ tail

def fill (values : Fields) (template : String) : Except TemplateFault String :=
  (run values .literal 0 template.toList).map String.ofList

/-- Renders a template. When a substitution is required, a template that comes out unchanged is a
fault as well. -/
def render (required : Bool) (template : String) (values : Fields) : Except SchemaDefect String :=
  match fill values template with
  | .error fault => .error (.template template fault)
  | .ok text =>
    if required && text == template then .error (.template template .unchanged) else .ok text

end Template

end TestMatrix
