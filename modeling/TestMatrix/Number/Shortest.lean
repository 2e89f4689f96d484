import TestMatrix.Number.Double

/-! # The shortest decimal of a double

A double is written with the fewest significant digits that read back to it. Among decimals of that
length the one nearest to the value is taken, and of two equally near ones the even one. -/

namespace TestMatrix

/-- The value `digits * 10 ^ exponent`. -/
structure Decimal where
  digits : Nat
  exponent : Int
deriving DecidableEq

namespace Double

/-- The lower end of the interval of reals that round to `x`, in quarters of its last place. The
neighbour below a power of two is half as far away as the one above. -/
def lowerQuarters (x : Double) : Nat :=
  if x.mantissa = Nat.pow 2 52 ∧ 0 < x.exponent then 4 * x.mantissa - 1 else 4 * x.mantissa - 2

def upperQuarters (x : Double) : Nat := 4 * x.mantissa + 2

/-- Whether the reals that round to the magnitude of `x` contain `d`. The ends of their interval
belong to it exactly when the mantissa is even. -/
def readsBack (x : Double) (d : Decimal) : Bool :=
  let up := Nat.pow 10 d.exponent.toNat
  let down := Nat.pow 10 (-d.exponent).toNat
  let value := d.digits * up * Nat.pow 2 1076
  let lower := x.lowerQuarters * Nat.pow 2 x.exponent * down
  let upper := x.upperQuarters * Nat.pow 2 x.exponent * down
  if x.mantissa % 2 = 0 then decide (lower ≤ value) && decide (value ≤ upper)
  else decide (lower < value) && decide (value < upper)

/-- The power of ten of the leading digit of a value other than zero. -/
def leadingPlace (x : Double) : Int :=
  let shifted := x.mantissa * Nat.pow 2 x.exponent * Nat.pow 10 400 / Nat.pow 2 1074
  ((Nat.toDigits 10 shifted).length : Int) - 401

/-- The multiple of `10 ^ place` nearest to `x` among the two around it that read back to `x`. -/
def onGrid (x : Double) (place : Int) : Option Decimal :=
  let num := x.mantissa * Nat.pow 2 x.exponent * Nat.pow 10 (-place).toNat
  let den := Nat.pow 2 1074 * Nat.pow 10 place.toNat
  let low := num / den
  let below : Decimal := ⟨low, place⟩
  let above : Decimal := ⟨low + 1, place⟩
  match x.readsBack below, x.readsBack above with
  | true, true =>
    match compare (2 * num) ((2 * low + 1) * den) with
    | .lt => some below
    | .gt => some above
    | .eq => if low % 2 = 0 then some below else some above
  | true, false => some below
  | false, true => some above
  | false, false => none

/-- The grids of one, two, … seventeen significant digits are tried in turn. Seventeen suffice for
every double; the exact value stands behind them. -/
def shortest (x : Double) : Decimal :=
  ((List.range 17).findSome? fun (n : Nat) => x.onGrid (x.leadingPlace - n)).getD
    ⟨x.mantissa * Nat.pow 2 x.exponent * Nat.pow 5 1074, -1074⟩

/-- Places the point: positional while the leading digit stands between `10 ^ (-5)` and `10 ^ 15`,
with at least one digit after the point; otherwise one digit, the rest after the point, and a signed
exponent without padding. -/
def layout (digits : List Char) (leading : Int) : List Char :=
  if 0 ≤ leading ∧ leading ≤ 15 then
    let width := leading.toNat + 1
    let whole := digits.take width
    let fraction := digits.drop width
    whole ++ List.replicate (width - whole.length) '0' ++
      '.' :: (if fraction.isEmpty then ['0'] else fraction)
  else if -5 ≤ leading ∧ leading < 0 then
    '0' :: '.' :: (List.replicate ((-leading).toNat - 1) '0' ++ digits)
  else
    digits.take 1 ++ (if digits.length ≤ 1 then [] else '.' :: digits.drop 1) ++
      'e' :: (if leading < 0 then '-' else '+') :: Nat.toDigits 10 leading.natAbs

/-- The digits of a decimal without the zeros at its end. -/
def significant (digits : List Char) : List Char :=
  (digits.reverse.dropWhile (· = '0')).reverse

def chars (x : Double) : List Char :=
  let magnitude :=
    if x.isZero then ['0', '.', '0']
    else
      let d := x.shortest
      let digits := Nat.toDigits 10 d.digits
      layout (significant digits) (digits.length - 1 + d.exponent)
  if x.negative then '-' :: magnitude else magnitude

end Double

end TestMatrix
