import Tsql.Decimal

/-!
# Numbers

The numbers a value can hold: integers of 64 bits, signed or not, and
finite binary64 numbers. Two readers produce them. `Number.read?` takes a
numeral as people type it; `Numeral.number?` takes a JSON numeral and
rounds it in binary steps.
-/

namespace Tsql

/-- An integer or a binary fraction. -/
inductive Number where
  | integer (value : Int)
  | double (value : Double)
  deriving DecidableEq, Repr

namespace Number

/-- Whether the number is zero, of either sign. -/
def isZero : Number → Bool
  | integer i => i == 0
  | double d => d.isZero

def text : Number → Text
  | integer i =>
    if i < 0 then '-' :: Nat.toDigits 10 i.natAbs else Nat.toDigits 10 i.natAbs
  | double d => d.text

end Number

/-! ## Digits -/

def digitsValue (digits : Text) : Nat :=
  digits.foldl (fun n c => 10 * n + (c.toNat - '0'.toNat)) 0

/-- A leading sign, read as whether it is a minus, and the rest. -/
def takeSign : Text → Bool × Text
  | '-' :: cs => (true, cs)
  | '+' :: cs => (false, cs)
  | cs => (false, cs)

/-- An exponent that makes up a whole text: empty, or the letter `e` in
either case, a sign if any, and digits. -/
def readExponent? : Text → Option Int
  | [] => some 0
  | e :: cs =>
    if e = 'e' ∨ e = 'E' then
      let (minus, digits) := takeSign cs
      if digits ≠ [] ∧ digits.all Char.isDigit then
        some (if minus then -(digitsValue digits : Int) else digitsValue digits)
      else none
    else none

/-! ## Typed numerals -/

namespace Number

/-- How many signed integers of 64 bits are not negative. -/
def signedLimit : Nat := Nat.pow 2 63

/-- A decimal integer of 64 bits, signed. -/
def readInteger? (text : Text) : Option Int :=
  let (minus, digits) := takeSign text
  let value : Int := if minus then -(digitsValue digits : Int) else digitsValue digits
  if digits ≠ [] ∧ digits.all Char.isDigit ∧ -(signedLimit : Int) ≤ value ∧
      value < signedLimit then
    some value
  else none

/-- A decimal fraction with an optional exponent: digits on at least one
side of the point, and finite. -/
def readDouble? (text : Text) : Option Double :=
  let (minus, unsigned) := takeSign text
  let whole := unsigned.takeWhile Char.isDigit
  let rest := unsigned.drop whole.length
  let (fraction, rest) :=
    match rest with
    | '.' :: cs => (cs.takeWhile Char.isDigit, cs.dropWhile Char.isDigit)
    | cs => ([], cs)
  if whole = [] ∧ fraction = [] then none
  else match readExponent? rest with
    | some power =>
      Double.ofDecimal minus (digitsValue (whole ++ fraction)) (power - fraction.length)
    | none => none

/-- The number a text denotes: an integer if it is one and fits, else a
finite fraction. -/
def read? (text : Text) : Option Number :=
  match readInteger? text with
  | some i => some (.integer i)
  | none => (readDouble? text).map .double

end Number

/-! ## JSON numerals -/

/-- A JSON numeral taken apart. -/
structure Numeral where
  negative : Bool
  whole : Text
  fraction : Option Text
  exponent : Option (Bool × Text)
  deriving DecidableEq, Repr

namespace Numeral

/-- The largest word of 64 bits. -/
def maxWord : Nat := Nat.pow 2 64 - 1

/-- The digits that fit into a word of 64 bits, and how many did not. -/
def takeDigits (word : Nat) : Text → Nat × Nat
  | [] => (word, 0)
  | c :: cs =>
    let next := 10 * word + (c.toNat - '0'.toNat)
    if next ≤ maxWord then takeDigits next cs else (word, cs.length + 1)

/-- `d` divided by `10 ^ 308` as often as told, while it is not zero. -/
def shrink : Nat → Double → Option Double
  | 0, d => some d
  | steps + 1, d =>
    if d.isZero then some d
    else ((Double.tenTo 308).bind d.div).bind (shrink steps)

/-- `d · 10 ^ power` in binary64, one multiplication or division by a
power of ten up to 308 at a time. -/
def scale (d : Double) (power : Int) : Option Double :=
  if 0 ≤ power then
    if power ≤ 308 then (Double.tenTo power.toNat).bind d.mul
    else if d.isZero then some d
    else none
  else
    let steps := ((-power).toNat - 1) / 308
    let left := (-power).toNat - 308 * steps
    (shrink steps d).bind fun d => (Double.tenTo left).bind d.div

/-- The largest exponent that is read as a number. -/
def maxPower : Nat := Nat.pow 2 31 - 1

/-- The binary number of a numeral: its digits as far as they fit a word,
then scaled. Nothing if it is out of range. -/
def double? (n : Numeral) : Option Double :=
  let (word, dropped) := takeDigits 0 n.whole
  let fraction := n.fraction.getD []
  let (word, unread) := takeDigits word fraction
  let power : Int := (dropped : Int) - (fraction.length - unread : Nat)
  let magnitude :=
    match n.exponent with
    | none => (Double.ofRatio false word 1).bind (scale · power)
    | some (minus, digits) =>
      let exponent := digitsValue digits
      if maxPower < exponent then
        if word = 0 ∨ minus then some (Double.zero false) else none
      else
        let exponent : Int := if minus then -(exponent : Int) else exponent
        (Double.ofRatio false word 1).bind (scale · (power + exponent))
  magnitude.map ({ · with negative := n.negative })

/-- The number of a numeral: an integer if it is written as one and fits
64 bits, else a binary number. Minus zero is a binary number. -/
def number? (n : Numeral) : Option Number :=
  let value := digitsValue n.whole
  if n.fraction = none ∧ n.exponent = none ∧ !n.negative ∧ value ≤ maxWord then
    some (.integer value)
  else if n.fraction = none ∧ n.exponent = none ∧ n.negative ∧
      0 < value ∧ value ≤ Number.signedLimit then
    some (.integer (-value))
  else n.double?.map .double

end Numeral

end Tsql
