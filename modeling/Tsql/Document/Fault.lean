import Tsql.Encoding

/-!
# Faults of a JSON text

Why a text is no JSON text, and where. A reading goes through the text
from left to right and stops at the first thing that is wrong. The place
is counted in bytes of UTF-8: it may lie inside a character.
-/

namespace Tsql

namespace Document

/-- What can be wrong with a JSON text. -/
inductive Cause where
  | endInArray
  | endInObject
  | endInString
  | endInValue
  | noColon
  | noArrayEnd
  | noObjectEnd
  | noName
  | noValue
  | noKey
  | badEscape
  | brokenPair
  | loneSurrogate
  | controlCharacter
  | badNumber
  | outOfRange
  | trailingComma
  | trailingCharacters
  | tooDeep
  deriving DecidableEq, Repr

def Cause.text : Cause → String
  | endInArray => "EOF while parsing a list"
  | endInObject => "EOF while parsing an object"
  | endInString => "EOF while parsing a string"
  | endInValue => "EOF while parsing a value"
  | noColon => "expected `:`"
  | noArrayEnd => "expected `,` or `]`"
  | noObjectEnd => "expected `,` or `\x7d`"
  | noName => "expected ident"
  | noValue => "expected value"
  | noKey => "key must be a string"
  | badEscape => "invalid escape"
  | brokenPair => "unexpected end of hex escape"
  | loneSurrogate => "lone leading surrogate in hex escape"
  | controlCharacter => "control character (\\u0000-\\u001F) found while parsing a string"
  | badNumber => "invalid number"
  | outOfRange => "number out of range"
  | trailingComma => "trailing comma"
  | trailingCharacters => "trailing characters"
  | tooDeep => "recursion limit exceeded"

/-- Where a reading stops: it has looked at everything before `rest` and
at `past` bytes of that. -/
structure Stop where
  cause : Cause
  rest : Text
  past : Nat
  deriving DecidableEq, Repr

/-- Stops in front of `rest`. -/
def Stop.before (cause : Cause) (rest : Text) : Stop := ⟨cause, rest, 0⟩

/-- Stops at the first byte of `rest`. -/
def Stop.within (cause : Cause) (rest : Text) : Stop := ⟨cause, rest, 1⟩

/-- Stops at the end of the text. -/
def Stop.atEnd (cause : Cause) : Stop := ⟨cause, [], 0⟩

/-- What is wrong with a text and where: the line, and how many of its
bytes were looked at. -/
structure Fault where
  cause : Cause
  line : Nat
  column : Nat
  deriving DecidableEq, Repr

/-- The bytes of a text that were looked at. -/
def Stop.seen (s : Stop) (text : Text) : List UInt8 :=
  let bytes := (Encoding.bytesOf text).toList
  bytes.take (bytes.length - (Encoding.bytesOf s.rest).size + s.past)

/-- The fault of a text whose reading stops. -/
def Stop.fault (s : Stop) (text : Text) : Fault :=
  let bytes := s.seen text
  { cause := s.cause
    line := 1 + bytes.count 10
    column := (bytes.reverse.takeWhile (· ≠ 10)).length }

def Fault.message (f : Fault) : String :=
  f.cause.text ++ " at line " ++ toString f.line ++ " column " ++ toString f.column

end Document

end Tsql
