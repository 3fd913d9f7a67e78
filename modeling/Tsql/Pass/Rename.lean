import Tsql.Name
import Tsql.Pass

/-!
# Renaming passes

`renameIdentifiers` maps every name of a script; `renameProcedures` maps
the names of procedures where they are defined or called, schema and all.
Both give the mapping names without quotes and put the quotes back.
-/

namespace Tsql

namespace Pass

/-! ## Identifiers -/

/-- Every identifier under a new name, in the quotes it had. -/
def renameIdentifiers (f : Text → Text) : Pass where
  name := "identifier-rename"
  step t _ :=
    if t.isIdentifier then
      let old := unquoteName t.text
      .ok { emitted := [t.renamed (f old)], asked := [.name old] }
    else .ok (.keep t)

/-! ## Procedures -/

/-- A keyword that a procedure's name may follow. -/
def introducesProcedure (t : Token) : Bool :=
  t.isKeyword "PROCEDURE" || t.isKeyword "PROC" || t.isKeyword "EXEC" || t.isKeyword "EXECUTE"

def dotToken : Token := .synthetic .dot ['.']

/-- The tokens of a procedure's name under a new schema and name, each
part in the quotes it had. -/
def renamedProcedure (old : QualifiedName) (schema name : Text) : List Token :=
  (match old.database with
    | some database => [.ofName database.value database.quote, dotToken]
    | none => []) ++
  [.ofName schema (old.schema.bind NamePart.quote), dotToken, .ofName name old.object.quote]

/-- The procedure names after `PROCEDURE` and `EXEC`, mapped together
with their schemas. The new name always has a schema. -/
def renameProcedures (f : Text → Text → Text × Text) : Pass where
  name := "procedure-rename"
  step t c :=
    if introducesProcedure t then
      match QualifiedName.peek c 1 with
      | some (old, span) =>
        let (schema, name) := f old.schemaOrDefault old.object.value
        .ok {
          emitted := t :: .synthetic .whitespace [' '] :: renamedProcedure old schema name
          consumed := span
          asked := [.object old.schemaOrDefault old.object.value] }
      | none => .ok (.keep t)
    else .ok (.keep t)

end Pass

end Tsql
