/-!
# Binary floating point

Finite binary64 numbers as exact values, and the one rounding rule by
which they arise: the nearest number, ties to the even significand. All
arithmetic is on natural numbers.
-/

namespace Tsql

/-- The number `significand · 2 ^ exponent`, negated if `negative`. Zero
has a sign. -/
structure Double where
  negative : Bool
  significand : Nat
  exponent : Int
  deriving DecidableEq, Repr

namespace Double

/-- Significands stay below `2 ^ 53`. -/
def significandLimit : Nat := Nat.pow 2 53

/-- The exponent of the smallest numbers. -/
def minExponent : Int := -1074

def maxExponent : Int := 971

def zero (negative : Bool) : Double := ⟨negative, 0, minExponent⟩

def isZero (d : Double) : Bool := d.significand == 0

def ratio (d : Double) : Nat × Nat :=
  if 0 ≤ d.exponent then (d.significand * Nat.pow 2 d.exponent.toNat, 1)
  else (d.significand, Nat.pow 2 (-d.exponent).toNat)

/-- Quotient, remainder and divisor of `num / den` counted in units of
`2 ^ exponent`. -/
def inUnits (num den : Nat) (exponent : Int) : Nat × Nat × Nat :=
  let num := num * Nat.pow 2 (-exponent).toNat
  let den := den * Nat.pow 2 exponent.toNat
  (num / den, num % den, den)

/-- The number nearest to `num / den`, the even one of two; nothing if
that is beyond the largest number. -/
def ofRatio (negative : Bool) (num den : Nat) : Option Double :=
  if num = 0 then some (zero negative)
  else
    let low := max ((num.log2 : Int) - den.log2 - 53) minExponent
    let exponent := if significandLimit ≤ (inUnits num den low).1 then low + 1 else low
    let (quotient, remainder, unit) := inUnits num den exponent
    let up := unit < 2 * remainder ∨ (unit = 2 * remainder ∧ quotient % 2 = 1)
    let rounded := if up then quotient + 1 else quotient
    let (significand, exponent) :=
      if rounded = significandLimit then (significandLimit / 2, exponent + 1)
      else (rounded, exponent)
    if maxExponent < exponent then none else some ⟨negative, significand, exponent⟩

/-- The number nearest to `digits · 10 ^ power`. Decimals far outside the
range are decided by their length. -/
def ofDecimal (negative : Bool) (digits : Nat) (power : Int) : Option Double :=
  let length := (Nat.toDigits 10 digits).length + power
  if digits = 0 ∨ length < -400 then some (zero negative)
  else if 400 < length then none
  else ofRatio negative (digits * Nat.pow 10 power.toNat) (Nat.pow 10 (-power).toNat)

/-- The nearest number to a product of magnitudes. -/
def mul (d e : Double) : Option Double :=
  let (dn, dd) := d.ratio
  let (en, ed) := e.ratio
  ofRatio d.negative (dn * en) (dd * ed)

/-- The nearest number to a quotient of magnitudes; `e` is not zero. -/
def div (d e : Double) : Option Double :=
  let (dn, dd) := d.ratio
  let (en, ed) := e.ratio
  ofRatio d.negative (dn * ed) (dd * en)

/-- The number nearest to a power of ten. -/
def tenTo (power : Nat) : Option Double := ofRatio false (Nat.pow 10 power) 1

end Double

end Tsql
