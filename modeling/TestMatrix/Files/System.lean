import TestMatrix.Text.Parts

/-! # The file system

A tree of directories and files without links, and the system calls on it. By the rules of the tree a
call either fails with an error and changes nothing, or does one thing. Paths are walked one name at a
time; all but the last name must lead to directories. -/

namespace TestMatrix

/-- Why a system call fails. -/
inductive FileError where
  | notFound
  | notADirectory
  | isADirectory
  | alreadyExists
  | nameTooLong
  /-- The target of a renaming ends in `.` or `..`. -/
  | busy
  /-- The path holds a character that no path may hold. -/
  | badPath
  /-- Any other reason that a machine gives. -/
  | other (message : String)
deriving DecidableEq

def FileError.message : FileError → String
  | .notFound => "No such file or directory (os error 2)"
  | .notADirectory => "Not a directory (os error 20)"
  | .isADirectory => "Is a directory (os error 21)"
  | .alreadyExists => "File exists (os error 17)"
  | .nameTooLong => "File name too long (os error 36)"
  | .busy => "Device or resource busy (os error 16)"
  | .badPath => "file name contained an unexpected NUL byte"
  | .other message => message

/-- The names from the root down. -/
abbrev Location := List String

inductive Node where
  | directory
  | file (content : ByteArray)

structure FileSystem where
  entries : List (Location × Node)
  workingDirectory : Location

inductive SystemCall where
  | makeDirectory (path : String)
  /-- Open for writing; the file is made when there is none and emptied when there is one. -/
  | create (path : String)
  /-- Write behind what the file holds. -/
  | append (path : String) (content : ByteArray)
  /-- Bring what was written to a file, or the entries of a directory, to the disk. -/
  | sync (path : String)
  | rename (source target : String)
  | openDirectory (path : String)

namespace FileSystem

def node? (fs : FileSystem) (location : Location) : Option Node :=
  if location.isEmpty then some .directory else fs.entries.lookup location

def putEntry (location : Location) (node : Node) : List (Location × Node) → List (Location × Node)
  | [] => [(location, node)]
  | entry :: rest =>
    if entry.1 = location then (location, node) :: rest else entry :: putEntry location node rest

def put (fs : FileSystem) (location : Location) (node : Node) : FileSystem :=
  { fs with entries := putEntry location node fs.entries }

def remove (fs : FileSystem) (location : Location) : FileSystem :=
  { fs with entries := fs.entries.filter fun entry => entry.1 ≠ location }

/-! ## Walking paths -/

def nameLimit : Nat := 255

def pathLimit : Nat := 4095

/-- One step from a directory to the directory of this name. -/
def enter (fs : FileSystem) (location : Location) (name : String) : Except FileError Location :=
  if name = "." then .ok location
  else if name = ".." then .ok location.dropLast
  else if nameLimit < name.utf8ByteSize then .error .nameTooLong
  else
    match fs.node? (location ++ [name]) with
    | none => .error .notFound
    | some (.file _) => .error .notADirectory
    | some .directory => .ok (location ++ [name])

/-- What a path comes down to: a directory, the last name in it, and whether the path asks for a
directory by a slash at its end. A path of slashes only is the root's own `.`. -/
structure Target where
  directory : Location
  name : String
  slash : Bool

def target (fs : FileSystem) (path : String) : Except FileError Target :=
  if path.toList.contains '\x00' then .error .badPath
  else if path.isEmpty then .error .notFound
  else if pathLimit < path.utf8ByteSize then .error .nameTooLong
  else
    let start := if path.toList.head? == some '/' then [] else fs.workingDirectory
    let names := slashParts path
    match names.getLast? with
    | none => .ok ⟨[], ".", true⟩
    | some name =>
      (names.dropLast.foldlM fs.enter start).map fun directory =>
        ⟨directory, name, path.toList.getLast? == some '/'⟩

/-- Whether the last name of a target is a name of its own. -/
def Target.isNamed (target : Target) : Bool := target.name != "." && target.name != ".."

def Target.location (target : Target) : Location :=
  if target.name = "." then target.directory
  else if target.name = ".." then target.directory.dropLast
  else target.directory ++ [target.name]

/-- The node a path leads to. -/
def locate (fs : FileSystem) (path : String) : Except FileError (Location × Node) := do
  let target ← fs.target path
  if !target.isNamed then pure (target.location, .directory)
  else if nameLimit < target.name.utf8ByteSize then .error .nameTooLong
  else
    match fs.node? target.location with
    | none => .error .notFound
    | some .directory => pure (target.location, .directory)
    | some (.file content) =>
      if target.slash then .error .notADirectory else pure (target.location, .file content)

def isFile (fs : FileSystem) (path : String) : Bool :=
  match fs.locate path with
  | .ok (_, .file _) => true
  | _ => false

def isDirectory (fs : FileSystem) (path : String) : Bool :=
  match fs.locate path with
  | .ok (_, .directory) => true
  | _ => false

def read (fs : FileSystem) (path : String) : Except FileError ByteArray := do
  match ← fs.locate path with
  | (_, .file content) => pure content
  | (_, .directory) => .error .isADirectory

/-! ## System calls -/

def makeDirectory (fs : FileSystem) (path : String) : Except FileError FileSystem := do
  let target ← fs.target path
  if !target.isNamed then .error .alreadyExists
  else if nameLimit < target.name.utf8ByteSize then .error .nameTooLong
  else
    match fs.node? target.location with
    | some _ => .error .alreadyExists
    | none => pure (fs.put target.location .directory)

def create (fs : FileSystem) (path : String) : Except FileError FileSystem := do
  let target ← fs.target path
  if !target.isNamed || target.slash then .error .isADirectory
  else if nameLimit < target.name.utf8ByteSize then .error .nameTooLong
  else
    match fs.node? target.location with
    | some .directory => .error .isADirectory
    | _ => pure (fs.put target.location (.file .empty))

def append (fs : FileSystem) (path : String) (content : ByteArray) :
    Except FileError FileSystem := do
  match ← fs.locate path with
  | (location, .file before) => pure (fs.put location (.file (before ++ content)))
  | (_, .directory) => .error .isADirectory

/-- Moves a file over another or to a new place in one step. -/
def rename (fs : FileSystem) (source target : String) : Except FileError FileSystem := do
  let old ← fs.target source
  let new ← fs.target target
  if !old.isNamed || !new.isNamed then .error .busy
  else
    match fs.node? old.location with
    | none => .error .notFound
    | some .directory => .error .isADirectory
    | some (.file content) =>
      if nameLimit < new.name.utf8ByteSize then .error .nameTooLong
      else if old.slash || new.slash then .error .notADirectory
      else
        match fs.node? new.location with
        | some .directory => .error .isADirectory
        | _ =>
          if old.location = new.location then pure fs
          else pure ((fs.remove old.location).put new.location (.file content))

def openDirectory (fs : FileSystem) (path : String) : Except FileError FileSystem :=
  (fs.locate path).map fun _ => fs

/-- The tree is what is on the disk already. -/
def sync (fs : FileSystem) (path : String) : Except FileError FileSystem :=
  (fs.locate path).map fun _ => fs

def perform (fs : FileSystem) : SystemCall → Except FileError FileSystem
  | .makeDirectory path => fs.makeDirectory path
  | .create path => fs.create path
  | .append path content => fs.append path content
  | .sync path => fs.sync path
  | .rename source target => fs.rename source target
  | .openDirectory path => fs.openDirectory path

/-- What a call has done when it breaks off: of data a beginning has been written, and any other call
has done nothing. -/
def breakOff (fs : FileSystem) (written : Nat) : SystemCall → FileSystem
  | .append path content => (fs.append path (content.extract 0 written)).toOption.getD fs
  | _ => fs

end FileSystem

end TestMatrix
