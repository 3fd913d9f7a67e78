import Tsql.Name
import Tsql.Pass
import Tsql.Signature

/-!
# Guarding definitions

`guardCreates` makes the definitions of a script repeatable. A procedure
or view is created as a stub where it is missing, and the statement
becomes an `ALTER`; a function is dropped where it exists, and the
statement becomes a `CREATE`; a `CREATE SCHEMA` runs only where the
schema is missing. Apart from the header of a schema, only the verb of
the statement is replaced.
-/

namespace Tsql

namespace Guard

/-! ## Tokens of a guard -/

def keyword (word : String) : Token := .synthetic .keyword word.toList

def identifier (name : String) : Token := .synthetic .identifier name.toList

def space : Token := .synthetic .whitespace [' ']

def indent (width : Nat) : Token := .synthetic .whitespace (List.replicate width ' ')

def newline (ending : LineEnding) : Token := .synthetic .whitespace ending.text

def leftParen : Token := .synthetic .leftParen ['(']

def rightParen : Token := .synthetic .rightParen [')']

def comma : Token := .synthetic .comma [',']

def equals : Token := .synthetic .symbol ['=']

def literal (text : Text) : Token := .synthetic .stringLiteral (stringLiteral text)

def nationalLiteral (text : Text) : Token :=
  .synthetic .stringLiteral ('N' :: stringLiteral text)

/-- An object of the system schema. -/
def systemObject (name : String) : List Token :=
  [identifier "sys", .synthetic .dot ['.'], identifier name]

/-- A statement run from its text. -/
def exec (statement : Text) : List Token :=
  [keyword "EXEC", leftParen, literal statement, rightParen]

def separator : Token := .synthetic .batchSeparator ['G', 'O']

/-- A read of a system table without locks. -/
def fromSystem (name : String) : List Token :=
  [keyword "FROM", space] ++ systemObject name ++
  [space, keyword "WITH", space, leftParen, identifier "nolock", rightParen, space,
    keyword "WHERE", space]

/-! ## Guards -/

/-- Creates a stub of a procedure where it is missing. -/
def procedure (ending : LineEnding) (name : QualifiedName) : List Token :=
  [keyword "IF", space, keyword "NOT", space, keyword "EXISTS", space, leftParen,
    keyword "SELECT", space, identifier "type_desc", comma, space, identifier "type", space] ++
  fromSystem "procedures" ++
  [identifier "name", space, equals, space, literal name.object.value, space,
    keyword "AND", space, identifier "type", space, equals, space, literal ['P'], rightParen,
    newline ending, keyword "BEGIN", newline ending, indent 4] ++
  exec ("CREATE PROCEDURE ".toList ++ name.schemaText ++ " AS".toList) ++
  [newline ending, keyword "END", newline ending, separator, newline ending, keyword "ALTER"]

/-- Drops a function where it exists. -/
def function (ending : LineEnding) (name : QualifiedName) : List Token :=
  [keyword "IF", space, keyword "EXISTS", space, leftParen,
    keyword "SELECT", space, identifier "name", space] ++
  fromSystem "objects" ++
  [identifier "object_id", space, equals, space, identifier "OBJECT_ID", leftParen,
    nationalLiteral name.schemaText, rightParen, space, keyword "AND", space,
    identifier "type", space, keyword "IN", space, leftParen,
    nationalLiteral ['F', 'N'], comma, nationalLiteral ['T', 'F'], comma,
    nationalLiteral ['I', 'F'], comma, nationalLiteral ['T', 'F'], rightParen, rightParen,
    newline ending, indent 2] ++
  exec ("DROP FUNCTION ".toList ++ name.schemaText) ++
  [newline ending, separator, newline ending, keyword "CREATE"]

/-- Creates a stub of a view where it is missing. -/
def view (ending : LineEnding) (name : QualifiedName) : List Token :=
  [keyword "IF", space, identifier "OBJECT_ID", leftParen, nationalLiteral name.schemaText,
    comma, space, nationalLiteral ['V'], rightParen, space, keyword "IS", space,
    keyword "NULL", newline ending, indent 2] ++
  exec ("CREATE VIEW ".toList ++ name.schemaText ++ " AS SELECT 1 AS placeholder".toList) ++
  [newline ending, separator, newline ending, keyword "ALTER"]

/-- The statement that creates a schema, for its owner if one is given. -/
def schemaStatement (schema : Text) (owner : Option Token) : Text :=
  "CREATE SCHEMA ".toList ++ quoteName schema (some .bracket) ++
    match owner with
    | some t => " AUTHORIZATION ".toList ++ t.text
    | none => []

/-- Creates a schema where it is missing. -/
def schema (ending : LineEnding) (name : Text) (owner : Option Token) : List Token :=
  [keyword "IF", space, keyword "NOT", space, keyword "EXISTS", space, leftParen,
    keyword "SELECT", space, identifier "name", space] ++
  fromSystem "schemas" ++
  [identifier "name", space, equals, space, literal name, rightParen,
    newline ending, indent 2] ++
  exec (schemaStatement name owner) ++
  [.synthetic .semicolon [';'], newline ending, separator]

end Guard

namespace Pass

open Guard

/-- The owner that a schema's definition names, with the cursor on its
verb. -/
def schemaOwner? (c : Cursor) : Option Token :=
  match c.peek 3, c.peek 4 with
  | some clause, some owner =>
    if clause.isKeyword "AUTHORIZATION" && owner.isIdentifier then some owner else none
  | _, _ => none

/-- What to do at the verb of a definition: `object` is the keyword after
it, `name` the name after that, `span` the number of its tokens. -/
def guardDecision (accepts : Text → Text → Bool) (ending : LineEnding) (t : Token) (c : Cursor)
    (object : Token) (name : QualifiedName) (span : Nat) : Decision :=
  let schema := name.schemaName
  let asking (replacement : List Token) : Decision :=
    { emitted := if accepts schema name.object.value then replacement else [t]
      asked := [.object schema name.object.value] }
  if object.isKeyword "PROCEDURE" || object.isKeyword "PROC" then
    asking (Guard.procedure ending name)
  else if object.isKeyword "SCHEMA" && t.isKeyword "CREATE" && name.isSinglePart then
    let created := name.object.value
    let asked := [Question.object created []]
    if accepts created [] then
      let owner := schemaOwner? c
      { emitted := Guard.schema ending created owner
        consumed := if owner.isSome then 4 else 2
        asked }
    else { emitted := [t], asked }
  else if object.isKeyword "FUNCTION" then
    if (Signature.peek c (2 + span)).isValid then asking (Guard.function ending name)
    else .keep t
  else if object.isKeyword "VIEW" then asking (Guard.view ending name)
  else .keep t

/-- Guards the definitions whose schema and name are accepted. The schema
is empty for a name that gives none; a schema is asked about as itself,
with an empty name. -/
def guardCreates (accepts : Text → Text → Bool) (ending : LineEnding) : Pass where
  name := "idempotent-create"
  step t c :=
    if t.isKeyword "CREATE" || t.isKeyword "ALTER" then
      match c.peek 1, QualifiedName.peek c 2 with
      | some object, some (name, span) =>
        .ok (guardDecision accepts ending t c object name span)
      | _, _ => .ok (.keep t)
    else .ok (.keep t)

end Pass

end Tsql
