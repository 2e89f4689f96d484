import TestMatrix.Toml.Token

/-! # Lines of settings files

A line is the header of a table or an entry; a list may go on over line ends. What a file defines
by its lines is not decided here. -/

namespace TestMatrix

namespace Toml

/-- The names between the dots, outermost first. -/
abbrev Key := List String

inductive Value where
  | text (text : String)
  | bool (value : Bool)
  | list (items : List Value)
  | table (entries : List (Key × Value))

inductive Line where
  | header (key : Key)
  | entry (key : Key) (value : Value)

/-- What stays open while a value is read. -/
inductive Frame where
  | line (key : Key)
  | items (done : List Value)
  | entry (done : List (Key × Value)) (key : Key)

/-- What a key belongs to. -/
inductive KeyOwner where
  | header
  | line
  | table (done : List (Key × Value))

/-- What may come next. Finished parts, items and entries stand last first. -/
inductive Mode where
  | lineStart
  | lineEnd
  | keyPart (owner : KeyOwner) (done : List String)
  /-- After a part of a key: a dot, or what follows the key. -/
  | keyRest (owner : KeyOwner) (done : List String)
  | value
  /-- In a list, before an item or the closing bracket. -/
  | item (done : List Value)
  | afterItem (done : List Value)
  | firstKey
  | afterEntry (done : List (Key × Value))

/-- The reader between two tokens. -/
structure Reading where
  lines : List Line
  frames : List Frame
  mode : Mode

namespace Reading

/-- A finished value goes to what is open around it. -/
def deliver (lines : List Line) (value : Value) : List Frame → Option Reading
  | [] => none
  | .line key :: frames => some ⟨.entry key value :: lines, frames, .lineEnd⟩
  | .items done :: frames => some ⟨lines, frames, .afterItem (value :: done)⟩
  | .entry done key :: frames => some ⟨lines, frames, .afterEntry ((key, value) :: done)⟩

/-- The first token of a value. -/
def startValue (lines : List Line) (frames : List Frame) : Token → Option Reading
  | .text text _ => deliver lines (.text text) frames
  | .word "true" => deliver lines (.bool true) frames
  | .word "false" => deliver lines (.bool false) frames
  | .openList => some ⟨lines, frames, .item []⟩
  | .openTable => some ⟨lines, frames, .firstKey⟩
  | _ => none

/-- A part of a key; a block is none. -/
def part? : Token → Option String
  | .word text | .text text false => some text
  | _ => none

/-- The token after a whole key. -/
def endKey (lines : List Line) (frames : List Frame) (owner : KeyOwner) (key : Key)
    (token : Token) : Option Reading :=
  match owner, token with
  | .header, .closeList => some ⟨.header key :: lines, frames, .lineEnd⟩
  | .line, .equals => some ⟨lines, .line key :: frames, .value⟩
  | .table done, .equals => some ⟨lines, .entry done key :: frames, .value⟩
  | _, _ => none

def step (reading : Reading) (token : Token) : Option Reading :=
  let lines := reading.lines
  let frames := reading.frames
  match reading.mode, token with
  | .lineStart, .lineEnd => some reading
  | .lineStart, .openList => some ⟨lines, frames, .keyPart .header []⟩
  | .lineStart, token => (part? token).map fun part => ⟨lines, frames, .keyRest .line [part]⟩
  | .lineEnd, .lineEnd => some ⟨lines, frames, .lineStart⟩
  | .lineEnd, _ => none
  | .keyPart owner done, token =>
    (part? token).map fun part => ⟨lines, frames, .keyRest owner (part :: done)⟩
  | .keyRest owner done, .dot => some ⟨lines, frames, .keyPart owner done⟩
  | .keyRest owner done, token => endKey lines frames owner done.reverse token
  | .value, token => startValue lines frames token
  | .item _, .lineEnd => some reading
  | .item done, .closeList => deliver lines (.list done.reverse) frames
  | .item done, token => startValue lines (.items done :: frames) token
  | .afterItem _, .lineEnd => some reading
  | .afterItem done, .comma => some ⟨lines, frames, .item done⟩
  | .afterItem done, .closeList => deliver lines (.list done.reverse) frames
  | .afterItem _, _ => none
  | .firstKey, .closeTable => deliver lines (.table []) frames
  | .firstKey, token => (part? token).map fun part => ⟨lines, frames, .keyRest (.table []) [part]⟩
  | .afterEntry done, .comma => some ⟨lines, frames, .keyPart (.table done) []⟩
  | .afterEntry done, .closeTable => deliver lines (.table done.reverse) frames
  | .afterEntry _, _ => none

def finish (reading : Reading) : Option (List Line) :=
  match reading.mode with
  | .lineStart | .lineEnd => some reading.lines.reverse
  | _ => none

end Reading

/-- The lines of a file; none when it is malformed. -/
def lines (text : String) : Option (List Line) := do
  let tokens ← tokens text
  let last ← tokens.foldlM Reading.step ⟨[], [], .lineStart⟩
  last.finish

end Toml

end TestMatrix
