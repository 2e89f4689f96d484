import TestMatrix.Command.Flag

/-! # The words of a command line

The words of one level are read from left to right. A flag that waits for its value takes the next
word that is no flag; whether a value was given, and given once, is judged when the next flag comes,
or at the end. After `--` no word is a flag or a value. -/

namespace TestMatrix

/-- A flag that was read, with its value or the empty text. -/
structure Use where
  flag : Flag
  value : String

/-- A flag with its value in a word of its own. -/
structure Pending where
  flag : Flag
  value : Option String

structure WordReading where
  /-- In the order of the command line. -/
  uses : List Use
  pending : Option Pending
  /-- After `--`. -/
  ended : Bool

namespace WordReading

def start : WordReading := ⟨[], none, false⟩

def uses? (reading : WordReading) (flag : Flag) : Bool :=
  reading.uses.any fun use => use.flag == flag

/-- Whether a flag waits for its value. -/
def isWaiting (reading : WordReading) : Bool :=
  match reading.pending with
  | some pending => pending.value.isNone
  | none => false

/-- Whether the next word may name a subcommand. -/
def takesSubcommand (reading : WordReading) : Bool := !reading.ended && !reading.isWaiting

/-- Takes a flag with its value. -/
def use (reading : WordReading) (flag : Flag) (value : String) : Except UsageFault WordReading :=
  let isRepeated :=
    match flag.arity with
    | .single | .switch => reading.uses? flag
    | .many | .counted => false
  if isRepeated then .error (.repeated flag)
  else if flag.namesPath && value.isEmpty then .error (.missingValue flag)
  else .ok { reading with uses := reading.uses ++ [⟨flag, value⟩] }

/-- Judges the pending flag. -/
def settle (reading : WordReading) : Except UsageFault WordReading :=
  match reading.pending with
  | none => .ok reading
  | some ⟨flag, none⟩ => .error (.missingValue flag)
  | some ⟨flag, some value⟩ => use { reading with pending := none } flag value

/-- Takes a flag without a value. -/
def act (reading : WordReading) (flag : Flag) : Except UsageFault WordReading := do
  let reading ← reading.settle
  match flag with
  | .help => .error .help
  | .version => .error .version
  | flag => reading.use flag ""

/-- The parts of a word before and after its first equals sign. -/
def splitEquals : List Char → List Char × Option (List Char)
  | [] => ([], none)
  | c :: rest =>
    if c = '=' then ([], some rest)
    else
      let (name, value) := splitEquals rest
      (c :: name, value)

/-- A word after two hyphens. -/
def longFlag (scope : Scope) (reading : WordReading) (word : String) (body : List Char) :
    Except UsageFault WordReading :=
  let (name, value) := splitEquals body
  match scope.long? (String.ofList name), value with
  | none, _ => .error (.unknownArgument word)
  | some flag, none =>
    if flag.takesValue then
      reading.settle.map fun reading => { reading with pending := some ⟨flag, none⟩ }
    else reading.act flag
  | some flag, some value =>
    if flag.takesValue then
      reading.settle.bind fun reading => reading.use flag (String.ofList value)
    else .error (.unexpectedValue flag)

/-- The letters after one hyphen, each a flag. -/
def shortFlags (scope : Scope) (word : String) :
    WordReading → List Char → Except UsageFault WordReading
  | reading, [] => .ok reading
  | reading, letter :: rest =>
    match scope.short? letter with
    | none => .error (.unknownArgument word)
    | some flag => (reading.act flag).bind fun reading => shortFlags scope word reading rest

/-- A word that is neither a flag nor a value. -/
def stray (scope : Scope) (reading : WordReading) (word : String) : UsageFault :=
  if scope != .root || (reading.ended && ((Scope.ofName? word).isSome || word == "help")) then
    .unknownArgument word
  else .unknownSubcommand word

/-- A word that names no subcommand. -/
def step (scope : Scope) (reading : WordReading) (word : String) : Except UsageFault WordReading :=
  if reading.ended then .error (reading.stray scope word)
  else
    match word.toList with
    | ['-', '-'] => .ok { reading with ended := true }
    | '-' :: '-' :: body => reading.longFlag scope word body
    | '-' :: letter :: rest => reading.shortFlags scope word (letter :: rest)
    | _ =>
      match reading.pending with
      | some ⟨flag, none⟩ => .ok { reading with pending := some ⟨flag, some word⟩ }
      | _ => .error (reading.stray scope word)

/-- The value of a flag that stands at most once. -/
def value? (reading : WordReading) (flag : Flag) : Option String :=
  (reading.uses.find? fun use => use.flag == flag).map Use.value

def values (reading : WordReading) (flag : Flag) : List String :=
  (reading.uses.filter fun use => use.flag == flag).map Use.value

def count (reading : WordReading) (flag : Flag) : Nat := (reading.values flag).length

end WordReading

end TestMatrix
