import Tsql.CharClass

/-!
# Compatibility levels and line endings

The server level a script is checked against, and the line terminator of
generated text.
-/

namespace Tsql

/-! ## Levels -/

/-- Compatibility level of the server a script is meant for. -/
inductive Level where
  | sql100
  | sql110
  | sql120
  | sql130
  | sql140
  | sql150
  | sql160
  deriving DecidableEq, Repr

namespace Level

/-- Every level, oldest first. -/
def all : List Level := [sql100, sql110, sql120, sql130, sql140, sql150, sql160]

/-- The level assumed when none is given. -/
def default : Level := sql110

instance : Inhabited Level := ⟨default⟩

/-- The name by which a level is given and shown. -/
def name : Level → String
  | sql100 => "Sql100"
  | sql110 => "Sql110"
  | sql120 => "Sql120"
  | sql130 => "Sql130"
  | sql140 => "Sql140"
  | sql150 => "Sql150"
  | sql160 => "Sql160"

/-- The level of that name, white space around it and the case of ASCII
letters ignored. -/
def ofName? (text : Text) : Option Level :=
  all.find? fun level => text.trim.sameFold level.name.toList

/-- What is said of a text that names no level. -/
def unknownMessage (text : Text) : String :=
  "Unknown compatibility level: " ++ String.ofList text ++
    " (expected one of Sql100 .. Sql160)"

/-- Whether the conditional function `IIF` exists. It came with the
second level. -/
def hasIif : Level → Bool
  | sql100 => false
  | _ => true

/-- Whether `name` is a built-in function that this level lacks. -/
def lacksBuiltin (level : Level) (name : Text) : Bool :=
  name.sameFold "IIF".toList && !level.hasIif

end Level

/-! ## Line endings -/

/-- Line terminator of generated text. -/
inductive LineEnding where
  | crlf
  | lf
  deriving DecidableEq, Repr

namespace LineEnding

def text : LineEnding → Text
  | crlf => ['\r', '\n']
  | lf => ['\n']

/-- The line ending of that exact name. -/
def ofName? (name : Text) : Option LineEnding :=
  if name = "crlf".toList then some crlf
  else if name = "lf".toList then some lf
  else none

end LineEnding

end Tsql
