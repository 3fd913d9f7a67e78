import Tsql.Utf16

/-!
# Bytes of a script

A script is stored as UTF-8, with or without a byte order mark. Bytes
that are no UTF-8 are read by the byte order mark they begin with, and as
Windows-1252 if they have none: every byte is a character then.
-/

namespace Tsql

namespace Encoding

/-! ## Windows-1252 -/

/-- The characters of the bytes 0x80 to 0x9F. -/
def windows1252High : List Nat :=
  [0x20AC, 0x0081, 0x201A, 0x0192, 0x201E, 0x2026, 0x2020, 0x2021,
   0x02C6, 0x2030, 0x0160, 0x2039, 0x0152, 0x008D, 0x017D, 0x008F,
   0x0090, 0x2018, 0x2019, 0x201C, 0x201D, 0x2022, 0x2013, 0x2014,
   0x02DC, 0x2122, 0x0161, 0x203A, 0x0153, 0x009D, 0x017E, 0x0178]

/-- The character of a byte. Outside 0x80 to 0x9F it is the code point of
the same number. -/
def windows1252Char (b : UInt8) : Char :=
  Char.ofNat ((if 0x80 ≤ b then windows1252High[b.toNat - 0x80]? else none).getD b.toNat)

/-! ## Reading -/

/-- The text of a byte sequence that is valid UTF-8. -/
def utf8? (bytes : ByteArray) : Option Text := (String.fromUTF8? bytes).map String.toList

/-- The byte order mark as a character. -/
def byteOrderMark : Char := Char.ofNat 0xFEFF

/-- A text without the byte order mark at its front. -/
def withoutMark (t : Text) : Text :=
  if t.head? = some byteOrderMark then t.tail else t

/-- The text of a byte sequence that is no UTF-8. A UTF-8 mark promises
what the bytes do not keep. -/
def fallback? : List UInt8 → Option Text
  | 0xEF :: 0xBB :: 0xBF :: _ => none
  | 0xFF :: 0xFE :: bytes => Utf16.decodeBytes? .little bytes
  | 0xFE :: 0xFF :: bytes => Utf16.decodeBytes? .big bytes
  | bytes => some (bytes.map windows1252Char)

def script? (bytes : ByteArray) : Option Text :=
  match utf8? bytes with
  | some t => some (withoutMark t)
  | none => fallback? bytes.toList

/-- The bytes of a text, without a mark. -/
def bytesOf (t : Text) : ByteArray := (String.ofList t).toUTF8

end Encoding

end Tsql
