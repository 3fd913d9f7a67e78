import Tsql.Document.Atom
import Tsql.Json

/-!
# JSON text

A machine with a stack of open containers goes through a JSON text once.
The result is a `Document`: it keeps members in order with their
repetitions, so that each reader of a document decides for itself which
of its parts it looks at. Read for its form alone, a text may also hold
numbers and strings that denote nothing. `Document.json` is the value of
a document, and `Json.read` reads a text for it.
-/

namespace Tsql

/-- A JSON text taken apart. -/
inductive Document where
  | null
  | bool (value : Bool)
  /-- `none` if it is out of range -/
  | number (value : Option Number)
  /-- `none` if a surrogate lacks its partner -/
  | string (value : Option Text)
  | array (items : List Document)
  | object (members : List (Option Text × Document))
  deriving Repr, Inhabited

namespace Document

/-! ## Containers -/

/-- A container around the value being read: what it holds so far, the
latest first, and for an object the key of the value. -/
inductive Frame where
  | array (items : List Document)
  | object (members : List (Option Text × Document)) (key : Option Text)

/-- What must come next, in containers of which the innermost stands
first. What a container holds so far is kept latest first. -/
inductive State where
  | value (frames : List Frame)
  | firstItem (frames : List Frame)
  | nextItem (frames : List Frame) (items : List Document)
  | afterItem (frames : List Frame) (items : List Document)
  | firstKey (frames : List Frame)
  | nextKey (frames : List Frame) (members : List (Option Text × Document))
  | colon (frames : List Frame) (members : List (Option Text × Document)) (key : Option Text)
  | afterMember (frames : List Frame) (members : List (Option Text × Document))
  | done (document : Document)

namespace State

/-- A finished value goes into the innermost container. -/
def finish (d : Document) : List Frame → State
  | [] => done d
  | .array items :: frames => afterItem frames (d :: items)
  | .object members key :: frames => afterMember frames ((key, d) :: members)

/-- How deep the containers of a value may be nested. -/
def maxDepth : Nat := 127

/-- Opens a container, if it is not too deep for a value. -/
def enter (p : Purpose) (frames : List Frame) (opened : State) (cs rest : Text) :
    Except Stop (State × Text) :=
  if p = .value ∧ maxDepth ≤ frames.length then .error (.within .tooDeep cs)
  else .ok (opened, rest)

/-- Takes a value, or the bracket that opens one. -/
def takeValue (p : Purpose) (frames : List Frame) (c : Char) (cs : Text) :
    Except Stop (State × Text) :=
  if c = 'n' then (takeName "ull".toList cs).map (finish .null frames, ·)
  else if c = 't' then (takeName "rue".toList cs).map (finish (.bool true) frames, ·)
  else if c = 'f' then (takeName "alse".toList cs).map (finish (.bool false) frames, ·)
  else if c = '-' ∨ c.isDigit then
    (takeNumber p (c :: cs)).map fun (n, rest) => (finish (.number n) frames, rest)
  else if c = '"' then
    (takeString p cs).map fun (s, rest) => (finish (.string s) frames, rest)
  else if c = '[' then enter p frames (firstItem frames) (c :: cs) cs
  else if c = '\x7b' then enter p frames (firstKey frames) (c :: cs) cs
  else .error (.within .noValue (c :: cs))

def takeKey (p : Purpose) (frames : List Frame) (members : List (Option Text × Document))
    (c : Char) (cs : Text) : Except Stop (State × Text) :=
  if c = '"' then (takeString p cs).map fun (key, rest) => (colon frames members key, rest)
  else .error (.within .noKey (c :: cs))

/-- Takes the next part of a text, which begins with a character that is
no white space. -/
def take (p : Purpose) (s : State) (c : Char) (cs : Text) : Except Stop (State × Text) :=
  match s with
  | value frames => takeValue p frames c cs
  | firstItem frames =>
    if c = ']' then .ok (finish (.array []) frames, cs)
    else takeValue p (.array [] :: frames) c cs
  | nextItem frames items =>
    if c = ']' then .error (.within .trailingComma (c :: cs))
    else takeValue p (.array items :: frames) c cs
  | afterItem frames items =>
    if c = ',' then .ok (nextItem frames items, cs)
    else if c = ']' then .ok (finish (.array items.reverse) frames, cs)
    else .error (.within .noArrayEnd (c :: cs))
  | firstKey frames =>
    if c = '\x7d' then .ok (finish (.object []) frames, cs)
    else takeKey p frames [] c cs
  | nextKey frames members =>
    if c = '\x7d' then .error (.within .trailingComma (c :: cs))
    else takeKey p frames members c cs
  | colon frames members key =>
    if c = ':' then .ok (value (.object members key :: frames), cs)
    else .error (.within .noColon (c :: cs))
  | afterMember frames members =>
    if c = ',' then .ok (nextKey frames members, cs)
    else if c = '\x7d' then .ok (finish (.object members.reverse) frames, cs)
    else .error (.within .noObjectEnd (c :: cs))
  | done _ => .error (.within .trailingCharacters (c :: cs))

/-- What the end of a text means. -/
def close : State → Except Stop Document
  | value _ => .error (.atEnd .endInValue)
  | firstItem _ => .error (.atEnd .endInArray)
  | nextItem _ _ => .error (.atEnd .endInValue)
  | afterItem _ _ => .error (.atEnd .endInArray)
  | firstKey _ => .error (.atEnd .endInObject)
  | nextKey _ _ => .error (.atEnd .endInValue)
  | colon _ _ _ => .error (.atEnd .endInObject)
  | afterMember _ _ => .error (.atEnd .endInObject)
  | done d => .ok d

theorem length_takeValue {p : Purpose} {frames : List Frame} {c : Char} {cs rest : Text}
    {next : State} (h : takeValue p frames c cs = .ok (next, rest)) :
    rest.length ≤ cs.length := by
  simp only [takeValue, enter, Except.map] at h
  grind [→ length_takeName, → length_takeNumber, → length_takeString]

theorem length_takeKey {p : Purpose} {frames : List Frame}
    {members : List (Option Text × Document)} {c : Char} {cs rest : Text} {next : State}
    (h : takeKey p frames members c cs = .ok (next, rest)) : rest.length ≤ cs.length := by
  simp only [takeKey, Except.map] at h
  grind [→ length_takeString]

/-- Every part takes at least its first character. -/
theorem length_take {p : Purpose} {s next : State} {c : Char} {cs rest : Text}
    (h : take p s c cs = .ok (next, rest)) : rest.length ≤ cs.length := by
  unfold take at h
  grind [→ length_takeValue, → length_takeKey]

end State

/-- The white space of JSON. -/
def isSpace (c : Char) : Bool := c = ' ' || c = '\n' || c = '\t' || c = '\r'

/-- Goes through a text to its end. -/
def run (p : Purpose) (s : State) (text : Text) : Except Stop Document :=
  match text with
  | [] => s.close
  | c :: cs =>
    if isSpace c then run p s cs
    else match _h : s.take p c cs with
      | .error stop => .error stop
      | .ok (next, rest) => run p next rest
termination_by text.length
decreasing_by
  · simp
  · have := State.length_take _h
    simp only [List.length_cons]
    omega

/-- The document that a whole text writes. -/
def read (p : Purpose) (text : Text) : Except Fault Document :=
  (run p (.value []) text).mapError (·.fault text)

/-! ## Values -/

mutual

/-- The value of a document, the last of repeated members taken. What
denotes nothing counts as null, and a member without a key does not
count; a text read for its value has neither. -/
def json : Document → Json
  | .null => .null
  | .bool b => .bool b
  | .number n => (n.map Json.number).getD .null
  | .string s => (s.map Json.string).getD .null
  | .array items => .array (itemValues items)
  | .object members => .object (Members.merge [] (memberValues members))

def itemValues : List Document → List Json
  | [] => []
  | item :: more => json item :: itemValues more

def memberValues : List (Option Text × Document) → List (Text × Json)
  | [] => []
  | (some key, item) :: more => (key, json item) :: memberValues more
  | (none, _) :: more => memberValues more

end

end Document

/-- The value that a whole text writes. -/
def Json.read (text : Text) : Except Document.Fault Json :=
  (Document.read .value text).map Document.json

end Tsql
