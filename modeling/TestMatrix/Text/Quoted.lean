import TestMatrix.Text.Hex

/-! # Quoted texts in log fields

Quotes, backslashes and control characters are escaped, the rarer ones by their code points. -/

namespace TestMatrix

/-- The digits of a number below 256 without leading zeros. -/
def hexDigits (n : Nat) : List Char :=
  if n < 16 then [hexDigit n] else [hexDigit (n / 16), hexDigit (n % 16)]

/-- A character inside quotes. -/
def quotedChar (c : Char) : List Char :=
  match c with
  | '"' => ['\\', '"']
  | '\\' => ['\\', '\\']
  | '\n' => ['\\', 'n']
  | '\r' => ['\\', 'r']
  | '\t' => ['\\', 't']
  | '\x00' => ['\\', '0']
  | c =>
    if c.toNat < 32 || (127 ≤ c.toNat && c.toNat < 160) then
      ['\\', 'u', '{'] ++ hexDigits c.toNat ++ ['}']
    else [c]

def quotedText (text : String) : String :=
  String.ofList ('"' :: (text.toList.flatMap quotedChar ++ ['"']))

/-- A list of texts in brackets. -/
def quotedList (texts : List String) : String :=
  "[" ++ String.intercalate ", " (texts.map quotedText) ++ "]"

end TestMatrix
