import Tsql.Document
import Tsql.Level

/-!
# Options

The options of a run, and their reading from a JSON document: an object
whose members may be left out, or an array that gives them in order.
-/

namespace Tsql

/-- What a run is told beside its pass. -/
structure Options where
  level : Level := .default
  ending : LineEnding := .crlf
  deriving DecidableEq, Repr

namespace Options

/-- A level is given by its name. -/
def level? : Document → Option Level
  | .string (some name) => Level.ofName? name
  | _ => none

/-- A line ending is given by its name, or as the only key of an object
with the value null. -/
def ending? : Document → Option LineEnding
  | .string (some name) => LineEnding.ofName? name
  | .object [(some name, .null)] => LineEnding.ofName? name
  | _ => none

/-- The options read so far from the members of an object. -/
structure Draft where
  level : Option Level := none
  ending : Option LineEnding := none

/-- One member. A key may be given once; one that means nothing here is
passed over. -/
def Draft.add (d : Draft) : Option Text × Document → Option Draft
  | (none, _) => none
  | (some key, value) =>
    if key = "compatibility".toList then
      match d.level, level? value with
      | none, some level => some { d with level := some level }
      | _, _ => none
    else if key = "line_ending".toList then
      match d.ending, ending? value with
      | none, some ending => some { d with ending := some ending }
      | _, _ => none
    else some d

/-- What was not given takes its default. -/
def Draft.options (d : Draft) : Options := ⟨d.level.getD .default, d.ending.getD .crlf⟩

def ofDocument? : Document → Option Options
  | .object members => (members.foldlM Draft.add {}).map Draft.options
  | .array [] => some {}
  | .array [level] => (level? level).map fun level => { level }
  | .array [level, ending] =>
    match level? level, ending? ending with
    | some level, some ending => some { level, ending }
    | _, _ => none
  | _ => none

/-- The options that a whole text gives. Of what is passed over, only the
form matters. -/
def read? (text : Text) : Option Options := (Document.read .form text).toOption.bind ofDocument?

end Options

end Tsql
