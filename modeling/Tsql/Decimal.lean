import Tsql.Double
import Tsql.Text

/-!
# Decimal text of numbers

The fewest digits that read back as the same number, and their layout:
positional for exponents from -5 to 15, with at least one digit after the
point, and with a signed exponent otherwise.
-/

namespace Tsql

namespace Decimal

/-! ## Shortest digits -/

/-- The number of decimal digits of `n`. -/
def digitCount (n : Nat) : Nat := (Nat.toDigits 10 n).length

/-- The `k` with `10 ^ (k - 1) ≤ num / den < 10 ^ k`, for a positive
fraction. -/
def magnitude (num den : Nat) : Int :=
  if den ≤ num then digitCount (num / den)
  else 1 - (digitCount ((den + num - 1) / num - 1) : Int)

/-- The multiple of `10 ^ power` nearest to `d` among its two neighbours
that reads back as `d`, if one does; of two equally near ones the even. -/
def onGrid? (d : Double) (power : Int) : Option Nat :=
  let (num, den) := d.ratio
  let num := num * Nat.pow 10 (-power).toNat
  let den := den * Nat.pow 10 power.toNat
  let low := num / den
  let readsBack (n : Nat) : Bool := Double.ofDecimal d.negative n power == some d
  match readsBack low, readsBack (low + 1) with
  | false, false => none
  | true, false => some low
  | false, true => some (low + 1)
  | true, true =>
    let rest := num % den
    if 2 * rest < den ∨ (2 * rest = den ∧ low % 2 = 0) then some low else some (low + 1)

/-- Digits and power of ten of the shortest decimal that reads back as a
number other than zero. Seventeen digits always do. -/
def shortest (d : Double) : Nat × Int :=
  let (num, den) := d.ratio
  let k := magnitude num den
  let found := (List.range 17).findSome? fun n =>
    (onGrid? d (k - (n + 1 : Nat))).map fun digits => (digits, k - (n + 1 : Nat))
  found.getD (0, 0)

/-! ## Layout -/

/-- Digits without trailing zeros, and how many of them stand before the
point. -/
def layoutDigits (digits : Nat) (power : Int) : Text × Int :=
  let all := Nat.toDigits 10 digits
  ((all.reverse.dropWhile (· = '0')).reverse, all.length + power)

/-- The exponents written positionally. -/
def isPositional (exponent : Int) : Bool := -5 ≤ exponent && exponent < 16

/-- A magnitude from its digits and the number of them before the point. -/
def layout (digits : Text) (point : Int) : Text :=
  let exponent := point - 1
  if isPositional exponent then
    if point ≤ 0 then "0.".toList ++ List.replicate (-point).toNat '0' ++ digits
    else if digits.length ≤ point.toNat then
      digits ++ List.replicate (point.toNat - digits.length) '0' ++ ".0".toList
    else digits.take point.toNat ++ '.' :: digits.drop point.toNat
  else
    let mantissa := match digits with
      | [] => []
      | [d] => [d]
      | d :: ds => d :: '.' :: ds
    let sign := if exponent < 0 then '-' else '+'
    mantissa ++ 'e' :: sign :: Nat.toDigits 10 exponent.natAbs

end Decimal

/-- The text of a binary number: the fewest digits that read back. -/
def Double.text (d : Double) : Text :=
  let magnitude :=
    if d.isZero then "0.0".toList
    else
      let (digits, power) := Decimal.shortest d
      let (digits, point) := Decimal.layoutDigits digits power
      Decimal.layout digits point
  if d.negative then '-' :: magnitude else magnitude

end Tsql
