import Tsql.Number

/-!
# JSON values

The values a template environment holds. The members of an object are
kept in code-point order of their keys, each key once; `Members.insert`
is the only way they are built.
-/

namespace Tsql

/-- A JSON value. -/
inductive Json where
  | null
  | bool (value : Bool)
  | number (value : Number)
  | string (value : Text)
  | array (items : List Json)
  | object (members : List (Text × Json))
  deriving Repr, Inhabited

/-! ## Members -/

namespace Members

def find? (key : Text) : List (Text × Json) → Option Json
  | [] => none
  | (k, v) :: more => if k = key then some v else find? key more

/-- Sets the value of a key, keeping the keys in order. -/
def insert (key : Text) (value : Json) : List (Text × Json) → List (Text × Json)
  | [] => [(key, value)]
  | (k, v) :: more =>
    if k = key then (key, value) :: more
    else if key < k then (key, value) :: (k, v) :: more
    else (k, v) :: insert key value more

/-- Sets the keys of `top`, in turn, on top of `base`. -/
def merge (base top : List (Text × Json)) : List (Text × Json) :=
  top.foldl (fun members (key, value) => insert key value members) base

theorem find?_insert (key other : Text) (value : Json) (members : List (Text × Json)) :
    find? other (insert key value members)
      = if key = other then some value else find? other members := by
  induction members with
  | nil => simp [insert, find?]
  | cons kv more ih =>
    obtain ⟨k, v⟩ := kv
    by_cases hk : k = key
    · subst hk
      by_cases h : k = other <;> simp [insert, find?, h]
    · by_cases hlt : key < k
      · simp [insert, hk, hlt, find?]
      · by_cases h : k = other
        · subst h
          simp [insert, hk, hlt, find?, Ne.symm hk]
        · simp [insert, hk, hlt, find?, h, ih]

end Members

namespace Json

/-! ## Truth -/

/-- Truth of a condition: null, zero and whatever is empty are false, and
so is the text of a single U+0000. -/
def isTruthy : Json → Bool
  | null => false
  | bool b => b
  | number n => !n.isZero
  | string s => s != [] && s != [Char.ofNat 0]
  | array items => !items.isEmpty
  | object members => !members.isEmpty

/-- The sort of a value, as it is named in a message. -/
def sortName : Json → String
  | null => "null"
  | bool _ => "a boolean"
  | number _ => "a number"
  | string _ => "a string"
  | array _ => "an array"
  | object _ => "an object"

/-! ## Text -/

/-- A hexadecimal digit, in lower case. -/
def hexDigit (n : Nat) : Char := Nat.digitChar n

/-- One character inside a string: only the quote, the backslash and the
control characters below U+0020 are escaped. -/
def escape (c : Char) : Text :=
  if c = '"' then ['\\', '"']
  else if c = '\\' then ['\\', '\\']
  else if c = '\n' then ['\\', 'n']
  else if c = '\r' then ['\\', 'r']
  else if c = '\t' then ['\\', 't']
  else if c.toNat = 8 then ['\\', 'b']
  else if c.toNat = 12 then ['\\', 'f']
  else if c.toNat < 32 then
    "\\u00".toList ++ [hexDigit (c.toNat / 16), hexDigit (c.toNat % 16)]
  else [c]

def quoted (s : Text) : Text := '"' :: (s.flatMap escape ++ ['"'])

mutual

/-- The compact text of a value. -/
def text : Json → Text
  | null => "null".toList
  | bool b => if b then "true".toList else "false".toList
  | number n => n.text
  | string s => quoted s
  | array items => '[' :: (Text.joinWith [','] (itemTexts items) ++ [']'])
  | object members => '\x7b' :: (Text.joinWith [','] (memberTexts members) ++ ['\x7d'])

def itemTexts : List Json → List Text
  | [] => []
  | item :: more => text item :: itemTexts more

def memberTexts : List (Text × Json) → List Text
  | [] => []
  | (key, value) :: more => (quoted key ++ ':' :: text value) :: memberTexts more

end

end Json

end Tsql
