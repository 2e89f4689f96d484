import TestMatrix.Json.Basic
import TestMatrix.Text.Hex

/-! # Written documents

The compact form has no blanks and escapes only quotes, backslashes and control characters. The
indented form is for readers: two blanks a level, one field or item a line. -/

namespace TestMatrix

namespace Json

/-- A character inside a quoted text. -/
def escapeChar (c : Char) : List Char :=
  match c with
  | '"' => ['\\', '"']
  | '\\' => ['\\', '\\']
  | '\n' => ['\\', 'n']
  | '\r' => ['\\', 'r']
  | '\t' => ['\\', 't']
  | '\x08' => ['\\', 'b']
  | '\x0c' => ['\\', 'f']
  | c =>
    if c.toNat < 32 then ['\\', 'u', '0', '0', hexDigit (c.toNat / 16), hexDigit (c.toNat % 16)]
    else [c]

def quoted (text : String) : List Char :=
  '"' :: (text.toList.flatMap escapeChar ++ ['"'])

mutual
/-- The compact form. -/
def chars : Json → List Char
  | .null => ['n', 'u', 'l', 'l']
  | .bool true => ['t', 'r', 'u', 'e']
  | .bool false => ['f', 'a', 'l', 's', 'e']
  | .num value => value.chars
  | .str text => quoted text
  | .arr items => '[' :: itemsChars items
  | .obj fields => '{' :: fieldsChars fields
/-- The items of a list with the closing bracket. -/
def itemsChars : List Json → List Char
  | [] => [']']
  | [item] => item.chars ++ [']']
  | item :: rest => item.chars ++ ',' :: itemsChars rest
/-- The fields of a mapping with the closing brace. -/
def fieldsChars : List (String × Json) → List Char
  | [] => ['}']
  | [(key, value)] => quoted key ++ ':' :: (value.chars ++ ['}'])
  | (key, value) :: rest => quoted key ++ ':' :: (value.chars ++ ',' :: fieldsChars rest)
end

def compact (value : Json) : String := String.ofList value.chars

/-- The text a value has inside other text: strings as they are, all else compact. -/
def display : Json → String
  | .str text => text
  | value => value.compact

def newline (depth : Nat) : List Char := '\n' :: List.replicate (2 * depth) ' '

mutual
/-- The indented form of a value that stands `depth` levels deep. -/
def indentedChars (depth : Nat) : Json → List Char
  | .arr [] => ['[', ']']
  | .arr items => '[' :: indentedItems depth items
  | .obj [] => ['{', '}']
  | .obj fields => '{' :: indentedFields depth fields
  | .null => ['n', 'u', 'l', 'l']
  | .bool true => ['t', 'r', 'u', 'e']
  | .bool false => ['f', 'a', 'l', 's', 'e']
  | .num value => value.chars
  | .str text => quoted text
def indentedItems (depth : Nat) : List Json → List Char
  | [] => newline depth ++ [']']
  | item :: rest =>
    newline (depth + 1) ++ indentedChars (depth + 1) item ++
      (if rest.isEmpty then [] else [',']) ++ indentedItems depth rest
def indentedFields (depth : Nat) : List (String × Json) → List Char
  | [] => newline depth ++ ['}']
  | (key, value) :: rest =>
    newline (depth + 1) ++ quoted key ++ [':', ' '] ++ indentedChars (depth + 1) value ++
      (if rest.isEmpty then [] else [',']) ++ indentedFields depth rest
end

def indented (value : Json) : String := String.ofList (value.indentedChars 0)

end Json

end TestMatrix
