import TestMatrix.Number.Basic

/-! # Numeric literals

A literal is read one character at a time. Digits are gathered into a significand of 64 bits; what
no longer fits moves the decimal point in the whole part and is ignored in the fraction. -/

namespace TestMatrix

/-- How much of a literal has been read after its sign. The `places` shift the decimal point of the
significand. -/
inductive Literal where
  /-- Nothing: a digit must follow. -/
  | empty
  /-- A leading zero: no digit may follow. -/
  | zero
  | whole (significand : Nat)
  /-- Whole digits past 64 bits. -/
  | long (significand : Nat) (places : Int)
  /-- The point has been read, and a digit must follow. -/
  | point (significand : Nat) (places : Int)
  | fraction (significand : Nat) (places : Int)
  /-- Fraction digits past 64 bits. -/
  | surplus (significand : Nat) (places : Int)
  /-- The exponent mark has been read, and a sign or digit must follow. -/
  | mark (significand : Nat) (places : Int)
  /-- The sign of the exponent has been read, and a digit must follow. -/
  | sign (significand : Nat) (places : Int) (negative : Bool)
  | power (significand : Nat) (places : Int) (negative : Bool) (exponent : Nat)
  /-- An exponent past 32 bits that makes the value zero. -/
  | vanished

inductive LiteralFault where
  | malformed
  | outOfRange

/-- What a further character does to a literal. -/
inductive LiteralStep where
  | next (literal : Literal)
  | refused (fault : LiteralFault)
  /-- The character does not belong to the literal, which is complete without it. -/
  | finished

namespace Literal

def digit? (c : Char) : Option Nat := if '0' ≤ c ∧ c ≤ '9' then some (c.toNat - 48) else none

/-- The significand with one digit more, if that still fits 64 bits. -/
def push? (significand digit : Nat) : Option Nat :=
  if significand * 10 + digit < Nat.pow 2 64 then some (significand * 10 + digit) else none

/-- What may follow the digits of the whole part. -/
def afterWhole (significand : Nat) (places : Int) (c : Char) : LiteralStep :=
  match c with
  | '.' => .next (.point significand places)
  | 'e' | 'E' => .next (.mark significand places)
  | _ => .finished

/-- What may follow the digits of the fraction. -/
def afterFraction (significand : Nat) (places : Int) (c : Char) : LiteralStep :=
  match c with
  | 'e' | 'E' => .next (.mark significand places)
  | _ => .finished

def fractionDigit (significand : Nat) (places : Int) (digit : Nat) : LiteralStep :=
  match push? significand digit with
  | some more => .next (.fraction more (places - 1))
  | none => .next (.surplus significand places)

def exponentDigit (significand : Nat) (places : Int) (negative : Bool) (exponent digit : Nat) :
    LiteralStep :=
  if exponent * 10 + digit < Nat.pow 2 31 then
    .next (.power significand places negative (exponent * 10 + digit))
  else if significand ≠ 0 ∧ ¬ negative then .refused .outOfRange
  else .next .vanished

def step (literal : Literal) (c : Char) : LiteralStep :=
  match literal with
  | .empty =>
    match digit? c with
    | some 0 => .next .zero
    | some d => .next (.whole d)
    | none => .refused .malformed
  | .zero =>
    match digit? c with
    | some _ => .refused .malformed
    | none => afterWhole 0 0 c
  | .whole significand =>
    match digit? c with
    | some d =>
      match push? significand d with
      | some more => .next (.whole more)
      | none => .next (.long significand 1)
    | none => afterWhole significand 0 c
  | .long significand places =>
    match digit? c with
    | some _ => .next (.long significand (places + 1))
    | none => afterWhole significand places c
  | .point significand places =>
    match digit? c with
    | some d => fractionDigit significand places d
    | none => .refused .malformed
  | .fraction significand places =>
    match digit? c with
    | some d => fractionDigit significand places d
    | none => afterFraction significand places c
  | .surplus significand places =>
    match digit? c with
    | some _ => .next (.surplus significand places)
    | none => afterFraction significand places c
  | .mark significand places =>
    match c with
    | '+' => .next (.sign significand places false)
    | '-' => .next (.sign significand places true)
    | _ =>
      match digit? c with
      | some d => .next (.power significand places false d)
      | none => .refused .malformed
  | .sign significand places negative =>
    match digit? c with
    | some d => .next (.power significand places negative d)
    | none => .refused .malformed
  | .power significand places negative exponent =>
    match digit? c with
    | some d => exponentDigit significand places negative exponent d
    | none => .finished
  | .vanished =>
    match digit? c with
    | some _ => .next .vanished
    | none => .finished

/-- Whether the literal may end here. -/
def isComplete : Literal → Bool
  | .empty | .point .. | .mark .. | .sign .. => false
  | _ => true

/-- The double of a significand with its point moved; none when it is too great. -/
def double? (negative : Bool) (significand : Nat) (places : Int) : Option Number :=
  ((Double.nearest negative significand 1).bind fun x => x.scaleByTen places).map .double

/-- An integer in the unsigned 64-bit range, or with a sign in the signed one, stays an integer.
Minus zero and all others are doubles. -/
def integer? (negative : Bool) (significand : Nat) : Option Number :=
  if negative = false then some (.int significand)
  else if 0 < significand ∧ significand ≤ Nat.pow 2 63 then some (.int (-(significand : Int)))
  else double? true significand 0

/-- The value of a complete literal; none when it is too great for a double. -/
def value? (negative : Bool) : Literal → Option Number
  | .zero => integer? negative 0
  | .whole significand => integer? negative significand
  | .long significand places => double? negative significand places
  | .fraction significand places => double? negative significand places
  | .surplus significand places => double? negative significand places
  | .power significand places down exponent =>
    double? negative significand (if down then places - exponent else places + exponent)
  | .vanished => some (.double (Double.zero negative))
  | .empty | .point .. | .mark .. | .sign .. => none

end Literal

end TestMatrix
