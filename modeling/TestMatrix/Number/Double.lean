/-! # Doubles

Finite binary64 values as exact natural numbers, and the one rounding step from which reading and
arithmetic are built: the exact quotient, rounded once to the nearest double, ties to even. -/

namespace TestMatrix

/-- The value `± mantissa * 2 ^ (exponent - 1074)`. The last field makes the representation unique:
below the least exponent step the leading bit is set. Zero keeps its sign. -/
structure Double where
  negative : Bool
  mantissa : Nat
  exponent : Nat
  mantissa_lt : mantissa < Nat.pow 2 53
  exponent_le : exponent ≤ 2045
  canonical : exponent = 0 ∨ Nat.pow 2 52 ≤ mantissa
deriving DecidableEq

/-- The quotient `num / den` to the nearest integer, an exact half to the even neighbour. -/
def roundHalfEven (num den : Nat) : Nat :=
  let low := num / den
  match compare (2 * (num % den)) den with
  | .lt => low
  | .gt => low + 1
  | .eq => if low % 2 = 0 then low else low + 1

namespace Double

def zero (negative : Bool) : Double :=
  ⟨negative, 0, 0, by decide, by decide, .inl rfl⟩

def isZero (x : Double) : Bool := x.mantissa == 0

/-- Equality of values: the two zeros are one. -/
def same (x y : Double) : Bool := x == y || (x.isZero && y.isZero)

/-- The double with these parts; none when they do not form one. -/
def ofParts? (negative : Bool) (mantissa exponent : Nat) : Option Double :=
  if h : mantissa < Nat.pow 2 53 ∧ exponent ≤ 2045 ∧ (exponent = 0 ∨ Nat.pow 2 52 ≤ mantissa) then
    some ⟨negative, mantissa, exponent, h.1, h.2.1, h.2.2⟩
  else none

/-- The double nearest to `± num / den`; none when that lies beyond the greatest double. -/
def nearest (negative : Bool) (num den : Nat) : Option Double :=
  let scaled := num * Nat.pow 2 1074
  let exponent := (scaled / den).log2 - 52
  let mantissa := roundHalfEven scaled (den * Nat.pow 2 exponent)
  if mantissa = Nat.pow 2 53 then ofParts? negative (Nat.pow 2 52) (exponent + 1)
  else ofParts? negative mantissa exponent

def mul (x y : Double) : Option Double :=
  nearest (x.negative != y.negative)
    (x.mantissa * y.mantissa * Nat.pow 2 (x.exponent + y.exponent)) (Nat.pow 2 2148)

/-- The quotient by a double other than zero. -/
def div (x y : Double) : Option Double :=
  nearest (x.negative != y.negative)
    (x.mantissa * Nat.pow 2 x.exponent) (y.mantissa * Nat.pow 2 y.exponent)

def tenPower (n : Nat) : Option Double := nearest false (Nat.pow 10 n) 1

/-- Moves the decimal point: one multiplication or division by a rounded power of ten where that
power is a double, and divisions by the greatest such power before it otherwise. None when the
result is beyond the greatest double. -/
def scaleByTen (x : Double) (places : Int) : Option Double :=
  if places.natAbs ≤ 308 then
    (tenPower places.natAbs).bind fun power => if 0 ≤ places then x.mul power else x.div power
  else if x.isZero then some x
  else if 0 ≤ places then none
  else
    (tenPower 308).bind fun power => (x.div power).bind fun y => y.scaleByTen (places + 308)
termination_by places.natAbs

/-- The integer part, kept within the signed 64-bit integers. -/
def truncated (x : Double) : Int :=
  let whole : Int := (x.mantissa * Nat.pow 2 x.exponent / Nat.pow 2 1074 : Nat)
  let bound : Int := Nat.pow 2 63
  if x.negative then max (-bound) (-whole) else min (bound - 1) whole

end Double

end TestMatrix
