import TestMatrix.Text.Parts

/-! # Spellings of file paths

A path is a text; what it names is a list of components. Repeated slashes, slashes at the end and
`.` except at the beginning are no components, but they stay in the text. -/

namespace TestMatrix

/-- How a path begins: at the root, or with a `.` that counts. -/
inductive Lead where
  | root
  | here
deriving DecidableEq

/-- The beginning of a path and the parts that follow, idle ones included. -/
structure Spelling where
  lead : Option Lead
  body : List String

inductive Component where
  | root
  | here
  | up
  | name (name : String)
deriving DecidableEq

namespace Spelling

def ofText (text : String) : Spelling :=
  match text.toList with
  | [] => ⟨none, []⟩
  | '/' :: rest => ⟨some .root, (splitSlash rest).map String.ofList⟩
  | chars =>
    match (splitSlash chars).map String.ofList with
    | "." :: rest => ⟨some .here, rest⟩
    | parts => ⟨none, parts⟩

def text (spelling : Spelling) : String :=
  match spelling.lead with
  | none => String.intercalate "/" spelling.body
  | some .root => "/" ++ String.intercalate "/" spelling.body
  | some .here => String.join ("." :: spelling.body.map fun part => "/" ++ part)

/-- Whether a part is no component. -/
def isIdle (part : String) : Bool := part == "" || part == "."

/-- The body without the idle parts at its end. -/
def trim (body : List String) : List String := (body.reverse.dropWhile isIdle).reverse

def components (spelling : Spelling) : List Component :=
  (match spelling.lead with
    | none => []
    | some .root => [.root]
    | some .here => [.here]) ++
  (spelling.body.filter fun part => !isIdle part).map fun part =>
    if part = ".." then .up else .name part

/-- The last component, when it is a name. -/
def fileName? (spelling : Spelling) : Option String :=
  match (trim spelling.body).getLast? with
  | some part => if part = ".." then none else some part
  | none => none

/-- The path without its last component; none for the root and the empty path. -/
def parent? (spelling : Spelling) : Option Spelling :=
  match trim spelling.body, spelling.lead with
  | [], some .here => some ⟨none, []⟩
  | [], _ => none
  | body, lead => some ⟨lead, trim body.dropLast⟩

/-- A path and all paths above it with a component of their own, the innermost first. Of the body,
the parts stand last first. -/
def ancestors (lead : Option Lead) : List String → List Spelling
  | [] => []
  | part :: rest =>
    if isIdle part then ancestors lead rest
    else ⟨lead, (part :: rest).reverse⟩ :: ancestors lead rest

end Spelling

namespace FilePath

def isAbsolute (path : String) : Bool := path.toList.head? == some '/'

/-- A path taken from another: an absolute one stands for itself, any other is written behind a
slash as it is. -/
def join (base path : String) : String :=
  if isAbsolute path then path
  else if base.isEmpty || base.toList.getLast? == some '/' then base ++ path
  else base ++ "/" ++ path

def components (path : String) : List Component := (Spelling.ofText path).components

def parent? (path : String) : Option String := (Spelling.ofText path).parent?.map Spelling.text

def fileName? (path : String) : Option String := (Spelling.ofText path).fileName?

/-- The path and the paths above it, the innermost first. -/
def ancestors (path : String) : List String :=
  let spelling := Spelling.ofText path
  (Spelling.ancestors spelling.lead spelling.body.reverse).map Spelling.text

/-- Plain relative paths name nothing outside the directory they are taken from. -/
def isPlain (path : String) : Bool :=
  (components path).all fun component =>
    match component with
    | .name _ | .here => true
    | .root | .up => false

end FilePath

end TestMatrix
