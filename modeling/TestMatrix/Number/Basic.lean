import TestMatrix.Number.Shortest

/-! # Numbers of a document

A number is an integer or a double, and the two never equal one another: `1` is not `1.0`. -/

namespace TestMatrix

inductive Number where
  | int (value : Int)
  | double (value : Double)
deriving DecidableEq

namespace Number

/-- Equality within a kind; the two zeros among the doubles are one. -/
def same : Number → Number → Bool
  | .int a, .int b => a == b
  | .double x, .double y => x.same y
  | _, _ => false

/-- The integer itself, or the integer part of the double within 64 signed bits. -/
def truncated : Number → Int
  | .int value => value
  | .double value => value.truncated

def intChars : Int → List Char
  | .ofNat n => Nat.toDigits 10 n
  | .negSucc n => '-' :: Nat.toDigits 10 (n + 1)

def chars : Number → List Char
  | .int value => intChars value
  | .double value => value.chars

end Number

end TestMatrix
