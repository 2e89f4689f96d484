import TestMatrix.Json.Basic
import TestMatrix.Number.Literal
import TestMatrix.Text.Hex

/-! # Reading documents

The reader takes one character at a time. Its state is the position, the values still open around
the current one, and the mode: what may come next. A fault carries the position it is reported at,
just past the byte found wrong, or the end of the text. -/

namespace TestMatrix

/-- Lines count from one; the column is the number of bytes of the line that have been read. -/
structure Position where
  line : Nat
  column : Nat
deriving DecidableEq

namespace Position

def start : Position := ⟨1, 0⟩

/-- The position past a number of bytes, the first of which belongs to this character. -/
def advance (position : Position) (c : Char) (bytes : Nat) : Position :=
  if c = '\n' then ⟨position.line + 1, 0⟩ else ⟨position.line, position.column + bytes⟩

def past (position : Position) (c : Char) : Position := position.advance c c.utf8Size

/-- The position past the first byte of a character. -/
def into (position : Position) (c : Char) : Position := position.advance c 1

end Position

/-- Why a text is not a document. -/
inductive SyntaxFault where
  | endInValue
  | endInList
  | endInObject
  | endInString
  | expectedValue
  | expectedColon
  | expectedListComma
  | expectedObjectComma
  | trailingComma
  | keyNotString
  | trailingCharacters
  | brokenWord
  | invalidNumber
  | numberOutOfRange
  | invalidEscape
  | controlCharacter
  | unpairedLead
  | loneSurrogate
  | tooDeep
deriving DecidableEq

structure SyntaxError where
  fault : SyntaxFault
  position : Position

def SyntaxFault.message : SyntaxFault → String
  | .endInValue => "EOF while parsing a value"
  | .endInList => "EOF while parsing a list"
  | .endInObject => "EOF while parsing an object"
  | .endInString => "EOF while parsing a string"
  | .expectedValue => "expected value"
  | .expectedColon => "expected `:`"
  | .expectedListComma => "expected `,` or `]`"
  | .expectedObjectComma => "expected `,` or `\x7d`"
  | .trailingComma => "trailing comma"
  | .keyNotString => "key must be a string"
  | .trailingCharacters => "trailing characters"
  | .brokenWord => "expected ident"
  | .invalidNumber => "invalid number"
  | .numberOutOfRange => "number out of range"
  | .invalidEscape => "invalid escape"
  | .controlCharacter => "control character (\\u0000-\\u001F) found while parsing a string"
  | .unpairedLead => "unexpected end of hex escape"
  | .loneSurrogate => "lone leading surrogate in hex escape"
  | .tooDeep => "recursion limit exceeded"

def SyntaxError.message (error : SyntaxError) : String :=
  s!"{error.fault.message} at line {error.position.line} column {error.position.column}"

/-- How much of a quoted text has been read; the characters read so far stand last first. -/
inductive QuotedText where
  | plain (done : List Char)
  | escape (done : List Char)
  /-- Inside four hexadecimal digits, after a leading surrogate or not: the bytes taken, and their
  value while all of them are digits. -/
  | hex (done : List Char) (lead : Option Nat) (bytes : Nat) (value : Option Nat)
  /-- After a leading surrogate a backslash must follow. -/
  | afterLead (done : List Char) (lead : Nat)
  /-- After that backslash a `u` must follow. -/
  | afterSlash (done : List Char) (lead : Nat)

inductive QuotedStep where
  | next (text : QuotedText)
  | closed (text : String)
  | refused (fault : SyntaxFault) (position : Position)

namespace QuotedText

/-- What the four digits of an escape stand for: a character, the first half of a pair, or with the
first half before it the whole pair. -/
def codeUnit (done : List Char) (lead : Option Nat) (unit : Nat) (position : Position) :
    QuotedStep :=
  let isTrail := decide (0xDC00 ≤ unit ∧ unit ≤ 0xDFFF)
  match lead with
  | none =>
    if isTrail then .refused .loneSurrogate position
    else if 0xD800 ≤ unit ∧ unit ≤ 0xDBFF then .next (.afterLead done unit)
    else .next (.plain (Char.ofNat unit :: done))
  | some first =>
    if isTrail then
      .next (.plain (Char.ofNat ((first - 0xD800) * 0x400 + (unit - 0xDC00) + 0x10000) :: done))
    else .refused .loneSurrogate position

/-- The character of a one-letter escape. -/
def letter? : Char → Option Char
  | '"' => some '"'
  | '\\' => some '\\'
  | '/' => some '/'
  | 'b' => some '\x08'
  | 'f' => some '\x0c'
  | 'n' => some '\n'
  | 'r' => some '\r'
  | 't' => some '\t'
  | _ => none

/-- A character at a position. An escape of hexadecimal digits takes four bytes whatever they are
and is judged after the last. -/
def step (text : QuotedText) (position : Position) (c : Char) : QuotedStep :=
  match text with
  | .plain done =>
    match c with
    | '"' => .closed (String.ofList done.reverse)
    | '\\' => .next (.escape done)
    | _ =>
      if c.toNat < 32 then .refused .controlCharacter (position.into c)
      else .next (.plain (c :: done))
  | .escape done =>
    match c with
    | 'u' => .next (.hex done none 0 (some 0))
    | _ =>
      match letter? c with
      | some letter => .next (.plain (letter :: done))
      | none => .refused .invalidEscape (position.into c)
  | .hex done lead bytes value =>
    let value := value.bind fun high => (hexValue? c).map fun low => high * 16 + low
    if bytes + c.utf8Size < 4 then .next (.hex done lead (bytes + c.utf8Size) value)
    else
      let stop := position.advance c (4 - bytes)
      match value with
      | some unit => codeUnit done lead unit stop
      | none => .refused .invalidEscape stop
  | .afterLead done lead =>
    if c = '\\' then .next (.afterSlash done lead) else .refused .unpairedLead (position.into c)
  | .afterSlash done lead =>
    if c = 'u' then .next (.hex done (some lead) 0 (some 0))
    else .refused .unpairedLead (position.into c)

end QuotedText

namespace Json

/-- A value that stays open while one inside it is read. -/
inductive Frame where
  | items (done : List Json)
  | field (done : Fields) (key : String)

/-- What may come next. Finished items stand last first. -/
inductive Mode where
  | value
  | firstItem
  /-- After the comma of a list. -/
  | item (done : List Json)
  | afterItem (done : List Json)
  | firstKey
  /-- After the comma of a mapping. -/
  | key (done : Fields)
  | keyText (done : Fields) (text : QuotedText)
  | colon (done : Fields) (key : String)
  | afterField (done : Fields)
  | word (rest : List Char) (value : Json)
  | number (negative : Bool) (literal : Literal)
  | text (text : QuotedText)
  | finished (value : Json)

/-- The reader between two characters. -/
structure Reading where
  position : Position
  frames : List Frame
  mode : Mode

/-- How deep lists and mappings may nest. -/
def depthLimit : Nat := 127

def isBlank (c : Char) : Bool := c == ' ' || c == '\n' || c == '\t' || c == '\r'

/-- A finished value goes to the value around it. -/
def deliver (frames : List Frame) (value : Json) : List Frame × Mode :=
  match frames with
  | [] => ([], .finished value)
  | .items done :: rest => (rest, .afterItem (value :: done))
  | .field done key :: rest => (rest, .afterField (Fields.set done key value))

/-- The first character of a value. -/
def startValue (position : Position) (frames : List Frame) (c : Char) :
    Except SyntaxError (List Frame × Mode) :=
  match c with
  | '[' =>
    if frames.length < depthLimit then .ok (frames, .firstItem)
    else .error ⟨.tooDeep, position.into c⟩
  | '{' =>
    if frames.length < depthLimit then .ok (frames, .firstKey)
    else .error ⟨.tooDeep, position.into c⟩
  | '"' => .ok (frames, .text (.plain []))
  | 't' => .ok (frames, .word ['r', 'u', 'e'] (.bool true))
  | 'f' => .ok (frames, .word ['a', 'l', 's', 'e'] (.bool false))
  | 'n' => .ok (frames, .word ['u', 'l', 'l'] .null)
  | '-' => .ok (frames, .number true .empty)
  | _ =>
    match Literal.digit? c, Literal.step .empty c with
    | some _, .next literal => .ok (frames, .number false literal)
    | _, _ => .error ⟨.expectedValue, position.into c⟩

/-- A character that is not blank, after a finished item, field or document. -/
def afterValue (position : Position) (frames : List Frame) (mode : Mode) (c : Char) :
    Except SyntaxError (List Frame × Mode) :=
  match mode with
  | .afterItem done =>
    match c with
    | ',' => .ok (frames, .item done)
    | ']' => .ok (deliver frames (.arr done.reverse))
    | _ => .error ⟨.expectedListComma, position.into c⟩
  | .afterField done =>
    match c with
    | ',' => .ok (frames, .key done)
    | '}' => .ok (deliver frames (.obj done))
    | _ => .error ⟨.expectedObjectComma, position.into c⟩
  | _ => .error ⟨.trailingCharacters, position.into c⟩

def literalFault : LiteralFault → SyntaxFault
  | .malformed => .invalidNumber
  | .outOfRange => .numberOutOfRange

/-- One character, with the frames and the mode after it. -/
def transition (position : Position) (frames : List Frame) (mode : Mode) (c : Char) :
    Except SyntaxError (List Frame × Mode) :=
  match mode with
  | .value => if isBlank c then .ok (frames, mode) else startValue position frames c
  | .firstItem =>
    if isBlank c then .ok (frames, mode)
    else if c = ']' then .ok (deliver frames (.arr []))
    else startValue position (.items [] :: frames) c
  | .item done =>
    if isBlank c then .ok (frames, mode)
    else if c = ']' then .error ⟨.trailingComma, position.into c⟩
    else startValue position (.items done :: frames) c
  | .firstKey =>
    if isBlank c then .ok (frames, mode)
    else if c = '}' then .ok (deliver frames (.obj []))
    else if c = '"' then .ok (frames, .keyText [] (.plain []))
    else .error ⟨.keyNotString, position.into c⟩
  | .key done =>
    if isBlank c then .ok (frames, mode)
    else if c = '}' then .error ⟨.trailingComma, position.into c⟩
    else if c = '"' then .ok (frames, .keyText done (.plain []))
    else .error ⟨.keyNotString, position.into c⟩
  | .keyText done text =>
    match text.step position c with
    | .next text => .ok (frames, .keyText done text)
    | .closed key => .ok (frames, .colon done key)
    | .refused fault stop => .error ⟨fault, stop⟩
  | .colon done key =>
    if isBlank c then .ok (frames, mode)
    else if c = ':' then .ok (.field done key :: frames, .value)
    else .error ⟨.expectedColon, position.into c⟩
  | .word rest value =>
    match rest with
    | [] => .error ⟨.brokenWord, position.into c⟩
    | [last] =>
      if c = last then .ok (deliver frames value) else .error ⟨.brokenWord, position.into c⟩
    | next :: rest =>
      if c = next then .ok (frames, .word rest value) else .error ⟨.brokenWord, position.into c⟩
  | .number negative literal =>
    match literal.step c with
    | .next literal => .ok (frames, .number negative literal)
    | .refused fault => .error ⟨literalFault fault, position.into c⟩
    | .finished =>
      match literal.value? negative with
      | none => .error ⟨.numberOutOfRange, position⟩
      | some value =>
        let (frames, mode) := deliver frames (.num value)
        if isBlank c then .ok (frames, mode) else afterValue position frames mode c
  | .text text =>
    match text.step position c with
    | .next text => .ok (frames, .text text)
    | .closed text => .ok (deliver frames (.str text))
    | .refused fault stop => .error ⟨fault, stop⟩
  | .afterItem _ | .afterField _ | .finished _ =>
    if isBlank c then .ok (frames, mode) else afterValue position frames mode c

def Reading.step (reading : Reading) (c : Char) : Except SyntaxError Reading :=
  (transition reading.position reading.frames reading.mode c).map fun (frames, mode) =>
    ⟨reading.position.past c, frames, mode⟩

/-- What the end of the text means for a mode that no number is open in. -/
def endOfMode : Mode → Except SyntaxFault Json
  | .finished value => .ok value
  | .value | .item _ | .key _ | .word .. | .number .. => .error .endInValue
  | .firstItem | .afterItem _ => .error .endInList
  | .firstKey | .colon .. | .afterField _ => .error .endInObject
  | .keyText .. | .text _ => .error .endInString

/-- The end of the text. A complete number ends with it. -/
def Reading.finish (reading : Reading) : Except SyntaxError Json :=
  let ended :=
    match reading.mode with
    | .number negative literal =>
      if literal.isComplete then
        match literal.value? negative with
        | some value => endOfMode (deliver reading.frames (.num value)).2
        | none => .error .numberOutOfRange
      else .error .endInValue
    | mode => endOfMode mode
  ended.mapError fun fault => ⟨fault, reading.position⟩

def Reading.run : Reading → List Char → Except SyntaxError Json
  | reading, [] => reading.finish
  | reading, c :: rest => (reading.step c).bind fun next => next.run rest

/-- The document that a text holds. -/
def parse (text : String) : Except SyntaxError Json :=
  Reading.run ⟨.start, [], .value⟩ text.toList

end Json

end TestMatrix
