import TestMatrix.Text.Hex

/-! # Tokens of settings files

A settings file is written in a part of TOML: tables, keys, strings, booleans and lists. Blanks and
comments separate tokens and are dropped; line ends are tokens. -/

namespace TestMatrix

namespace Toml

inductive Token where
  /-- A bare key, or the name of a boolean. -/
  | word (text : String)
  /-- A quoted text on one line, or a block between three quotation marks. -/
  | text (text : String) (isBlock : Bool)
  | equals
  | dot
  | comma
  | openList
  | closeList
  | openTable
  | closeTable
  | lineEnd
deriving DecidableEq

/-- Basic strings know escapes, literal ones do not. -/
inductive Quote where
  | basic
  | literal
deriving DecidableEq

def Quote.mark : Quote → Char
  | .basic => '"'
  | .literal => '\''

/-- Where the scanner is. Characters read stand last first. -/
inductive Scan where
  | gap
  | comment
  | word (done : List Char)
  /-- After one quotation mark, and after two. -/
  | opened (quote : Quote)
  | openedTwice (quote : Quote)
  | line (quote : Quote) (done : List Char)
  /-- At the start of a block, where a line end does not count. -/
  | blockStart (quote : Quote)
  /-- In a block, after this many quotation marks in a row. -/
  | block (quote : Quote) (done : List Char) (marks : Nat)
  | escape (isBlock : Bool) (done : List Char)
  /-- In the digits of a code point. -/
  | code (isBlock : Bool) (done : List Char) (left : Nat) (value : Nat)
  /-- After a backslash that drops the line end and the blanks around it; a line end must come. -/
  | fold (done : List Char) (ended : Bool)

namespace Scan

def isWordChar (c : Char) : Bool := c.isAlphanum || c == '_' || c == '-'

/-- Characters that stand nowhere in a file, line ends apart. -/
def isControl (c : Char) : Bool := (c.toNat < 32 && c != '\t') || c.toNat == 127

/-- The character of a one-letter escape. -/
def letter? : Char → Option Char
  | '"' => some '"'
  | '\\' => some '\\'
  | 'b' => some '\x08'
  | 'f' => some '\x0c'
  | 'n' => some '\n'
  | 'r' => some '\r'
  | 't' => some '\t'
  | _ => none

/-- The token that a word or a block comes to when it ends. -/
def wordToken (done : List Char) : Token := .word (String.ofList done.reverse)

/-- Of the quotation marks at the end of a block all but the last three belong to it. -/
def blockToken (quote : Quote) (done : List Char) (marks : Nat) : Token :=
  .text (String.ofList (done.reverse ++ List.replicate (marks - 3) quote.mark)) true

/-- A character between tokens. -/
def inGap (c : Char) : Option (Scan × List Token) :=
  match c with
  | ' ' | '\t' => some (.gap, [])
  | '\n' => some (.gap, [.lineEnd])
  | '#' => some (.comment, [])
  | '"' => some (.opened .basic, [])
  | '\'' => some (.opened .literal, [])
  | '=' => some (.gap, [.equals])
  | '.' => some (.gap, [.dot])
  | ',' => some (.gap, [.comma])
  | '[' => some (.gap, [.openList])
  | ']' => some (.gap, [.closeList])
  | '{' => some (.gap, [.openTable])
  | '}' => some (.gap, [.closeTable])
  | _ => if isWordChar c then some (.word [c], []) else none

def inLine (quote : Quote) (done : List Char) (c : Char) : Option (Scan × List Token) :=
  if c = quote.mark then some (.gap, [.text (String.ofList done.reverse) false])
  else if c = '\\' ∧ quote = .basic then some (.escape false done, [])
  else if isControl c then none
  else some (.line quote (c :: done), [])

def inBlock (quote : Quote) (done : List Char) (marks : Nat) (c : Char) :
    Option (Scan × List Token) :=
  if c = quote.mark then if marks < 5 then some (.block quote done (marks + 1), []) else none
  else if 3 ≤ marks then
    (inGap c).map fun (scan, tokens) => (scan, blockToken quote done marks :: tokens)
  else
    let done := List.replicate marks quote.mark ++ done
    if c = '\\' ∧ quote = .basic then some (.escape true done, [])
    else if isControl c && c != '\n' then none
    else some (.block quote (c :: done) 0, [])

/-- Back in a basic string after an escape. -/
def resume (isBlock : Bool) (done : List Char) : Scan :=
  if isBlock then .block .basic done 0 else .line .basic done

/-- One character, with the tokens that it completes. -/
def step (scan : Scan) (c : Char) : Option (Scan × List Token) :=
  match scan with
  | .gap => inGap c
  | .comment =>
    if c = '\n' then some (.gap, [.lineEnd]) else if isControl c then none else some (.comment, [])
  | .word done =>
    if isWordChar c then some (.word (c :: done), [])
    else (inGap c).map fun (scan, tokens) => (scan, wordToken done :: tokens)
  | .opened quote =>
    if c = quote.mark then some (.openedTwice quote, []) else inLine quote [] c
  | .openedTwice quote =>
    if c = quote.mark then some (.blockStart quote, [])
    else (inGap c).map fun (scan, tokens) => (scan, .text "" false :: tokens)
  | .line quote done => inLine quote done c
  | .blockStart quote => if c = '\n' then some (.block quote [] 0, []) else inBlock quote [] 0 c
  | .block quote done marks => inBlock quote done marks c
  | .escape isBlock done =>
    match letter? c with
    | some letter => some (resume isBlock (letter :: done), [])
    | none =>
      if c = 'u' then some (.code isBlock done 4 0, [])
      else if c = 'U' then some (.code isBlock done 8 0, [])
      else if isBlock && (c == ' ' || c == '\t' || c == '\n') then some (.fold done (c == '\n'), [])
      else none
  | .code isBlock done left value => do
    let digit ← hexValue? c
    let value := value * 16 + digit
    if 1 < left then some (.code isBlock done (left - 1) value, [])
    else if value.isValidChar then some (resume isBlock (Char.ofNat value :: done), [])
    else none
  | .fold done ended =>
    if c = ' ' ∨ c = '\t' then some (.fold done ended, [])
    else if c = '\n' then some (.fold done true, [])
    else if ended then inBlock .basic done 0 c
    else none

/-- The tokens that the end of the file completes. -/
def finish : Scan → Option (List Token)
  | .gap | .comment => some []
  | .word done => some [wordToken done]
  | .openedTwice _ => some [.text "" false]
  | .block quote done marks => if 3 ≤ marks then some [blockToken quote done marks] else none
  | _ => none

def run : Scan → List Char → Option (List Token)
  | scan, [] => scan.finish
  | scan, c :: rest => do
    let (scan, tokens) ← scan.step c
    let others ← run scan rest
    pure (tokens ++ others)

end Scan

/-- Carriage returns before line feeds are dropped. -/
def joinLineEnds : List Char → List Char
  | '\r' :: '\n' :: rest => '\n' :: joinLineEnds rest
  | c :: rest => c :: joinLineEnds rest
  | [] => []

/-- A mark at the start of a text that only tells its encoding. -/
def dropMark : List Char → List Char
  | '\ufeff' :: rest => rest
  | chars => chars

/-- The tokens of a file; none where no token can stand. -/
def tokens (text : String) : Option (List Token) :=
  Scan.gap.run (joinLineEnds (dropMark text.toList))

end Toml

end TestMatrix
