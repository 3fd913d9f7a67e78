import Tsql.Text

/-!
# UTF-16

Characters beyond U+FFFF are written as two units, a high and a low
surrogate. A surrogate without its partner writes nothing.
-/

namespace Tsql

namespace Utf16

def isHighSurrogate (n : Nat) : Bool := 0xD800 ≤ n && n ≤ 0xDBFF

def isLowSurrogate (n : Nat) : Bool := 0xDC00 ≤ n && n ≤ 0xDFFF

def pairedChar (high low : Nat) : Char :=
  Char.ofNat (0x10000 + (high - 0xD800) * 0x400 + (low - 0xDC00))

/-- The text of a sequence of units, if every surrogate has its partner.
A character beyond U+FFFF may also stand as one number. -/
def decode? : List Nat → Option Text
  | [] => some []
  | [n] => if n.isValidChar then some [Char.ofNat n] else none
  | n :: m :: more =>
    if isHighSurrogate n && isLowSurrogate m then (decode? more).map (pairedChar n m :: ·)
    else if n.isValidChar then (decode? (m :: more)).map (Char.ofNat n :: ·)
    else none

/-- The order of the two bytes of a unit. -/
inductive ByteOrder where
  | little
  | big
  deriving DecidableEq, Repr

/-- The units of a byte sequence, if it has an even length. -/
def units? (order : ByteOrder) : List UInt8 → Option (List Nat)
  | [] => some []
  | [_] => none
  | a :: b :: more =>
    let unit :=
      match order with
      | .little => a.toNat + 256 * b.toNat
      | .big => 256 * a.toNat + b.toNat
    (units? order more).map (unit :: ·)

def decodeBytes? (order : ByteOrder) (bytes : List UInt8) : Option Text :=
  (units? order bytes).bind decode?

end Utf16

end Tsql
