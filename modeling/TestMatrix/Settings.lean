import TestMatrix.Files.Spelling
import TestMatrix.Toml.Line

/-! # Settings

Defaults for generating, read from one table of a settings file. The table is written under its
header, by dotted keys, as an inline table, or as a list of its fields in order. -/

namespace TestMatrix

structure Settings where
  mode : Option String
  templateDirs : List String
  outDir : Option String
  requireSubstitution : Option Bool

/-- Why a settings file is refused. -/
inductive SettingsFault where
  | malformed
  /-- A line that does not belong to the table, or defines it a second time. -/
  | misplaced (key : Toml.Key)
  | unknownField (field : String)
  | repeatedField (field : String)
  | wrongType (field : String)

def SettingsFault.message : SettingsFault → String
  | .malformed => "malformed file"
  | .misplaced key =>
    let name := String.intercalate "." key
    s!"unexpected key '{name}'"
  | .unknownField field => s!"unknown field '{field}'"
  | .repeatedField field => s!"field '{field}' is given twice"
  | .wrongType field => s!"wrong type of field '{field}'"

namespace Settings

/-- The settings of an empty file. -/
def empty : Settings := ⟨none, [], none, none⟩

def tableName : String := "generate"

/-- The fields of the table in the order in which a list gives them. -/
def fieldNames : List String := ["mode", "template_dirs", "out_dir", "require_substitution"]

/-! ## Gathering the fields -/

/-- How the table has been written so far. -/
inductive Form where
  | absent
  | dotted
  | headed
  | whole

/-- The fields of a table written as one value. -/
def fieldsOf : Toml.Value → Except SettingsFault (List (String × Toml.Value))
  | .table entries => entries.mapM fun (entry : Toml.Key × Toml.Value) =>
    match entry.1 with
    | [field] => .ok (field, entry.2)
    | key => .error (.misplaced key)
  | .list items => .ok (fieldNames.zip items)
  | _ => .error (.wrongType tableName)

/-- The fields that the lines of a file give to the table. -/
def gather : Form → List Toml.Line → Except SettingsFault (List (String × Toml.Value))
  | _, [] => .ok []
  | form, .header key :: rest =>
    match form, key == [tableName] with
    | .absent, true => gather .headed rest
    | _, _ => .error (.misplaced key)
  | form, .entry key value :: rest =>
    match form, key with
    | .headed, [field] => (gather .headed rest).map fun others => (field, value) :: others
    | .absent, [table] =>
      if table = tableName then do
        let own ← fieldsOf value
        let others ← gather .whole rest
        pure (own ++ others)
      else .error (.misplaced key)
    | .absent, [table, field] | .dotted, [table, field] =>
      if table = tableName then
        (gather .dotted rest).map fun others => (field, value) :: others
      else .error (.misplaced key)
    | _, _ => .error (.misplaced key)

/-! ## Reading the fields -/

def textOf (field : String) : Toml.Value → Except SettingsFault String
  | .text text => .ok text
  | _ => .error (.wrongType field)

def setField (settings : Settings) (field : String) (value : Toml.Value) :
    Except SettingsFault Settings :=
  match field, value with
  | "mode", value => (textOf field value).map fun mode => { settings with mode := some mode }
  | "template_dirs", .list items =>
    (items.mapM (textOf field)).map fun templateDirs => { settings with templateDirs }
  | "out_dir", value => (textOf field value).map fun dir => { settings with outDir := some dir }
  | "require_substitution", .bool value => .ok { settings with requireSubstitution := some value }
  | _, _ =>
    if fieldNames.contains field then .error (.wrongType field) else .error (.unknownField field)

def ofFields : List (String × Toml.Value) → Except SettingsFault Settings
  | [] => .ok empty
  | (field, value) :: rest =>
    if rest.any fun (other, _) => other == field then .error (.repeatedField field)
    else do
      let settings ← ofFields rest
      setField settings field value

/-- Takes the directories from a base directory. -/
def relativeTo (base : String) (settings : Settings) : Settings :=
  { settings with
    templateDirs := settings.templateDirs.map (FilePath.join base)
    outDir := settings.outDir.map (FilePath.join base) }

/-- The settings in a file. Its directories are relative to the file. -/
def parse (path content : String) : Except SettingsFault Settings := do
  match Toml.lines content with
  | none => .error .malformed
  | some lines =>
    let fields ← gather .absent lines
    let settings ← ofFields fields
    pure (settings.relativeTo ((FilePath.parent? path).getD ""))

end Settings

end TestMatrix
