import Tsql.CharClass
import Tsql.Document

/-!
# Template environments

The values that templates refer to, by name. A name with dots leads into
nested objects unless it is a key itself. Environments come from a JSON
object or from `KEY=VALUE` pairs, and can be laid over one another.
-/

namespace Tsql

/-- Values by name, the keys in order. -/
structure Environment where
  members : List (Text × Json)
  deriving Repr, Inhabited

namespace Environment

def empty : Environment := ⟨[]⟩

def size (e : Environment) : Nat := e.members.length

/-- The value of a key, dots and all. -/
def find? (e : Environment) (key : Text) : Option Json := Members.find? key e.members

def insert (e : Environment) (key : Text) (value : Json) : Environment :=
  ⟨Members.insert key value e.members⟩

/-- Lays `top` over `e`. -/
def merge (e top : Environment) : Environment := ⟨Members.merge e.members top.members⟩

/-! ## Looking up -/

/-- The value inside a value that a path of keys leads to. -/
def navigate (value : Json) : List Text → Option Json
  | [] => some value
  | key :: path =>
    match value with
    | .object members =>
      match Members.find? key members with
      | some inner => navigate inner path
      | none => none
    | _ => none

/-- The value of a name: of the key it is, else of the path it writes
with dots. -/
def lookup (e : Environment) (name : Text) : Option Json :=
  match e.find? name with
  | some value => some value
  | none =>
    match name.split '.' with
    | [] => none
    | first :: path => (e.find? first).bind (navigate · path)

/-! ## Sources -/

/-- Why there is no environment. -/
inductive Error where
  | notJson (fault : Document.Fault)
  | notObject (found : Json)
  | noEquals (pair : Text)
  | emptyKey (pair : Text)

def Error.detail : Error → String
  | notJson fault => fault.message
  | notObject found => "expected a JSON object, found " ++ found.sortName
  | noEquals pair => "expected KEY=VALUE, found '" ++ String.ofList pair ++ "'"
  | emptyKey pair => "empty key in '" ++ String.ofList pair ++ "'"

def Error.message (e : Error) : String := "Invalid template environment: " ++ e.detail

/-- The environment written by a JSON object. -/
def ofJson (text : Text) : Except Error Environment :=
  match Json.read text with
  | .error fault => .error (.notJson fault)
  | .ok (.object members) => .ok ⟨members⟩
  | .ok other => .error (.notObject other)

/-- A value as typed on a command line: a truth value, null or a number
if it reads as one with the white space around it left out, else the text
as it is. -/
def readScalar (text : Text) : Json :=
  let word := text.trim
  if word.sameFold "true".toList then .bool true
  else if word.sameFold "false".toList then .bool false
  else if word.sameFold "null".toList then .null
  else match Number.read? word with
    | some n => .number n
    | none => .string text

/-- A pair cut at its first equals sign. -/
def readPair (pair : Text) : Except Error (Text × Json) :=
  match pair.cut ['='] with
  | none => .error (.noEquals pair)
  | some (key, value) =>
    if key.trim = [] then .error (.emptyKey pair)
    else .ok (key.trim, readScalar value)

/-- The environment of a list of pairs, later ones over earlier ones. -/
def ofPairs (pairs : List Text) : Except Error Environment :=
  go empty pairs
where
  go (e : Environment) : List Text → Except Error Environment
    | [] => .ok e
    | pair :: more =>
      match readPair pair with
      | .error error => .error error
      | .ok (key, value) => go (e.insert key value) more

end Environment

end Tsql
